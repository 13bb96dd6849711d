import TownOS.Fat32.Chains

/-!
File contents: the bytes of a chain, read and written a cluster at a time.

* `Delivers`, `exists_reads_fat32ReadFile`: what `fat32_read_file` delivers, whatever
  the FAT holds;
* `does_writeDataLoop`: the loop of `fat32_write_file` leaves the data in the
  chain, filled up with zeros, and touches no other cluster.
-/

namespace TownOS

open Durable Bytes Linked

/-- The bytes of a cluster. -/
def clusterBytes (fs : Fs) (V : View) (c : ℕ) : List UInt8 :=
  takeBytes (V.data c) fs.bytesPerCluster

/-- The bytes of a list of clusters. -/
def chainBytes (fs : Fs) (V : View) (l : List ℕ) : List UInt8 := l.flatMap (clusterBytes fs V)

/-- The clusters that hold `n` bytes. -/
def clustersFor (fs : Fs) (n : ℕ) : ℕ := (n + fs.bytesPerCluster - 1) / fs.bytesPerCluster

section Bytes

variable {fs : Fs} {V W : View} {c : ℕ} {l : List ℕ}

@[simp] lemma takeBytes_length (buf : Buf) (n : ℕ) : (takeBytes buf n).length = n := by
  simp [takeBytes]

@[simp] lemma clusterBytes_length : (clusterBytes fs V c).length = fs.bytesPerCluster :=
  takeBytes_length _ _

@[simp] lemma chainBytes_nil : chainBytes fs V [] = [] := rfl

@[simp] lemma chainBytes_cons :
    chainBytes fs V (c :: l) = clusterBytes fs V c ++ chainBytes fs V l := rfl

lemma chainBytes_length : (chainBytes fs V l).length = l.length * fs.bytesPerCluster := by
  induction l with
  | nil => simp
  | cons c l ih => simp [ih, Nat.succ_mul, Nat.add_comm]

lemma chainBytes_congr (h : ∀ c ∈ l, W.data c = V.data c) :
    chainBytes fs W l = chainBytes fs V l := by
  induction l with
  | nil => rfl
  | cons c l ih =>
    rw [chainBytes_cons, chainBytes_cons, ih fun b hb => h b (by simp [hb]), clusterBytes,
      clusterBytes, h c (by simp)]

lemma takeBytes_eq_take {buf : Buf} {m n : ℕ} (h : m ≤ n) :
    takeBytes buf m = (takeBytes buf n).take m := by
  rw [takeBytes, takeBytes, ← List.map_take, List.take_range, Nat.min_eq_left h]

/-- A buffer filled with the front of a list and zeros. -/
lemma takeBytes_padded (src : List UInt8) {m n : ℕ} (hm : m ≤ src.length) (hmn : m ≤ n) :
    takeBytes (fun i => if i < m then src.getD i 0 else 0) n =
      src.take m ++ List.replicate (n - m) 0 := by
  refine List.ext_getElem (by simp; omega) fun i h1 h2 => ?_
  rw [takeBytes_length] at h1
  by_cases hi : i < m
  · rw [List.getElem_append_left (by simp; omega)]
    simp [takeBytes, hi, List.getElem?_eq_getElem (show i < src.length by omega)]
  · rw [List.getElem_append_right (by simp; omega)]
    simp [takeBytes, hi]

lemma clusterBytes_setData (f : Buf) :
    clusterBytes fs (V.setData c fun i => if i < fs.bytesPerCluster then f i else 0) c =
      takeBytes f fs.bytesPerCluster := by
  refine List.map_congr_left fun i hi => ?_
  simp [List.mem_range.mp hi]

end Bytes

/-! ### Reading -/

/-- `bytes` are the first `size` bytes of the clusters met from `a` on, of which as many as
the size takes can be followed, in at most `n` steps. -/
def Delivers (fs : Fs) (V : View) (a n size : ℕ) (bytes : List UInt8) : Prop :=
  ∃ l, Follows (V.nextLink fs) a l ∧ (∀ c ∈ l, clusterInRange fs c = true) ∧
    l.length = clustersFor fs size ∧ l.length ≤ n ∧ bytes = (chainBytes fs V l).take size

section Reading

variable {fs : Fs} (h : Mounted fs) {V : View} {a b n r : ℕ} {bytes : List UInt8}

include h

lemma clustersFor_zero : clustersFor fs 0 = 0 := by
  have := h.bytesPerCluster_pos
  exact Nat.div_eq_of_lt (by omega)

/-- One cluster takes the bytes of one round. -/
lemma clustersFor_pos (hr : 0 < r) :
    clustersFor fs r = clustersFor fs (r - fs.bytesPerCluster) + 1 := by
  have hb := h.bytesPerCluster_pos
  have hone : clustersFor fs r = (r - 1) / fs.bytesPerCluster + 1 := by
    rw [clustersFor, show r + fs.bytesPerCluster - 1 = r - 1 + fs.bytesPerCluster by omega,
      Nat.add_div_right _ hb]
  rw [hone, clustersFor]
  rcases Nat.lt_or_ge r fs.bytesPerCluster with hlt | hge
  · rw [Nat.div_eq_of_lt (by omega), Nat.div_eq_of_lt (by omega)]
  · rw [show r - fs.bytesPerCluster + fs.bytesPerCluster - 1 = r - 1 by omega]

lemma delivers_zero : Delivers fs V a n 0 bytes ↔ bytes = [] := by
  constructor
  · rintro ⟨l, -, -, -, -, rfl⟩
    exact List.take_zero
  · rintro rfl
    exact ⟨[], .nil, by simp, (clustersFor_zero h).symm, Nat.zero_le n, rfl⟩

lemma delivers_append_zero {out : List UInt8} :
    some out = some bytes ↔ ∃ t, Delivers fs V a n 0 t ∧ bytes = out ++ t := by
  simp only [delivers_zero h, exists_eq_left, List.append_nil, Option.some.injEq]
  exact eq_comm

/-- A file that is not empty takes at least one step, to a cluster of the volume. -/
lemma Delivers.pos (hd : Delivers fs V a n r bytes) (hr : 0 < r) :
    0 < n ∧ clusterInRange fs a = true := by
  obtain ⟨l, hl, hin, hlen, hle, -⟩ := hd
  rw [clustersFor_pos h hr] at hlen
  refine ⟨by omega, ?_⟩
  cases hl with
  | nil => simp at hlen
  | one => exact hin a (by simp)
  | next _ _ => exact hin a (by simp)

/-- What the last cluster names does not matter. -/
lemma delivers_last (hr : 0 < r) (hle : r ≤ fs.bytesPerCluster) (ha : clusterInRange fs a = true) :
    Delivers fs V a (n + 1) r bytes ↔ bytes = takeBytes (V.data a) r := by
  have hone : clustersFor fs r = 1 := by
    rw [clustersFor_pos h hr, Nat.sub_eq_zero_of_le hle, clustersFor_zero h]
  have hbytes : (chainBytes fs V [a]).take r = takeBytes (V.data a) r := by
    rw [chainBytes_cons, List.take_append_of_le_length (by rw [clusterBytes_length]; exact hle),
      clusterBytes, takeBytes_eq_take hle]
  constructor
  · rintro ⟨l, hl, -, hlen, -, rfl⟩
    obtain ⟨c, rfl⟩ := List.length_eq_one_iff.mp (hlen.trans hone)
    rw [(follows_cons_iff.mp hl).1, hbytes]
  · rintro rfl
    exact ⟨[a], .one, by simpa using ha, hone.symm, by simp, hbytes.symm⟩

/-- The clusters after the first are those met from its successor on. -/
lemma delivers_next_iff (hlt : fs.bytesPerCluster < r) (ha : clusterInRange fs a = true) :
    Delivers fs V a (n + 1) r bytes ↔ ∃ b t, V.nextLink fs a = .next b ∧
      Delivers fs V b n (r - fs.bytesPerCluster) t ∧
      bytes = takeBytes (V.data a) fs.bytesPerCluster ++ t := by
  have hb := h.bytesPerCluster_pos
  have hcount := clustersFor_pos h (r := r) (by omega)
  have hmore := clustersFor_pos h (r := r - fs.bytesPerCluster) (by omega)
  have hbytes : ∀ l, (chainBytes fs V (a :: l)).take r = takeBytes (V.data a) fs.bytesPerCluster ++
      (chainBytes fs V l).take (r - fs.bytesPerCluster) := by
    intro l
    rw [chainBytes_cons, List.take_append, clusterBytes_length,
      List.take_of_length_le (by rw [clusterBytes_length]; omega), clusterBytes]
  constructor
  · rintro ⟨l, hl, hin, hlen, hle, rfl⟩
    obtain ⟨c, t, rfl⟩ := List.exists_cons_of_length_pos (show 0 < l.length by omega)
    obtain ⟨rfl, rfl | ⟨b, hb, ht⟩⟩ := follows_cons_iff.mp hl
    · simp at hlen
      omega
    · simp only [List.length_cons] at hlen hle
      exact ⟨b, _, hb, ⟨t, ht, fun c hc => hin c (by simp [hc]), by omega, by omega, rfl⟩, hbytes t⟩
  · rintro ⟨b, _, hb, ⟨t, ht, hin, hlen, hle, rfl⟩, rfl⟩
    refine ⟨a :: t, .next hb ht, ?_, ?_, ?_, (hbytes t).symm⟩
    · intro c hc
      rcases List.mem_cons.mp hc with rfl | hc
      · exact ha
      · exact hin c hc
    · rw [List.length_cons, hlen, hcount]
    · rw [List.length_cons]
      omega

/-- The loop of `fat32_read_file` gives up unless it can follow as many clusters as it has
to, and then it delivers their bytes. -/
lemma reads_readFileLoop_iff (v : Vol) (out : List UInt8) :
    ∃ res, Act.Reads (readFileLoop fs n a r out) v res ∧ ∀ bytes, res = some bytes ↔
      ∃ t, Delivers fs (asRead fs v.disk) a n r t ∧ bytes = out ++ t := by
  induction n generalizing a r out with
  | zero =>
    rw [readFileLoop]
    by_cases hr : 0 < r
    · refine ⟨none, by rw [if_pos hr]; exact Act.Reads.fail _, fun bytes =>
        ⟨fun hn => absurd hn (by simp), ?_⟩⟩
      rintro ⟨t, hd, -⟩
      exact absurd (hd.pos h hr).1 (by omega)
    · obtain rfl : r = 0 := by omega
      exact ⟨some out, Act.Reads.pure _ _, fun bytes => delivers_append_zero h⟩
  | succ n ih =>
    rw [readFileLoop]
    by_cases hr : r = 0
    · subst hr
      exact ⟨some out, Act.Reads.pure _ _, fun bytes => delivers_append_zero h⟩
    rw [if_neg hr]
    have hread := reads_readCluster_asRead h (c := a) v
    by_cases ha : clusterInRange fs a = true
    · rw [if_pos ha] at hread
      by_cases hlast : r ≤ fs.bytesPerCluster
      · have hchunk : (if r < fs.bytesPerCluster then r else fs.bytesPerCluster) = r := by
          split_ifs <;> omega
        refine ⟨some (out ++ takeBytes ((asRead fs v.disk).data a) r), hread.bind ?_, ?_⟩
        · simp only [hchunk, Nat.sub_self, if_true]
          exact Act.Reads.pure _ _
        · intro bytes
          simp only [delivers_last h (Nat.pos_of_ne_zero hr) hlast ha, exists_eq_left,
            Option.some.injEq]
          exact eq_comm
      · have hchunk : (if r < fs.bytesPerCluster then r else fs.bytesPerCluster) =
            fs.bytesPerCluster := if_neg (by omega)
        have hrest : r - fs.bytesPerCluster ≠ 0 := by omega
        have hlink := h.reads_fat32NextCluster v (c := a)
        have hstuck : (∀ b, (asRead fs v.disk).nextLink fs a ≠ .next b) → ∀ bytes,
            none = some bytes ↔
              ∃ t, Delivers fs (asRead fs v.disk) a (n + 1) r t ∧ bytes = out ++ t := by
          refine fun hno bytes => ⟨fun hn => absurd hn (by simp), ?_⟩
          rintro ⟨t, hd, -⟩
          obtain ⟨b, -, hb, -⟩ := (delivers_next_iff h (Nat.lt_of_not_le hlast) ha).mp hd
          exact absurd hb (hno b)
        cases hb : (asRead fs v.disk).nextLink fs a with
        | stop =>
          rw [hb] at hlink
          refine ⟨none, hread.bind ?_, hstuck (by simp [hb])⟩
          simp only [hchunk, if_neg hrest]
          exact hlink.bind (Act.Reads.fail _)
        | broken =>
          rw [hb] at hlink
          refine ⟨none, hread.bind ?_, hstuck (by simp [hb])⟩
          simp only [hchunk, if_neg hrest]
          exact hlink.bind_none
        | next b =>
          rw [hb] at hlink
          obtain ⟨res, hres, hiff⟩ := ih (a := b) (r := r - fs.bytesPerCluster)
            (out ++ takeBytes ((asRead fs v.disk).data a) fs.bytesPerCluster)
          refine ⟨res, hread.bind ?_, fun bytes => (hiff bytes).trans ?_⟩
          · simp only [hchunk, if_neg hrest]
            exact hlink.bind hres
          · constructor
            · rintro ⟨t, hd, rfl⟩
              exact ⟨_, (delivers_next_iff h (Nat.lt_of_not_le hlast) ha).mpr
                ⟨b, t, hb, hd, rfl⟩, List.append_assoc _ _ _⟩
            · rintro ⟨_, hd, rfl⟩
              obtain ⟨b', t, hb', hd', rfl⟩ :=
                (delivers_next_iff h (Nat.lt_of_not_le hlast) ha).mp hd
              obtain rfl : b = b' := Link.next.inj (hb.symm.trans hb')
              exact ⟨t, hd', (List.append_assoc _ _ _).symm⟩
    · rw [if_neg ha] at hread
      refine ⟨none, hread.bind_none, fun bytes => ⟨fun hn => absurd hn (by simp), ?_⟩⟩
      rintro ⟨t, hd, -⟩
      exact absurd (hd.pos h (Nat.pos_of_ne_zero hr)).2 ha

lemma Delivers.length (hd : Delivers fs V a n r bytes) : bytes.length = r := by
  obtain ⟨l, -, -, hlen, -, rfl⟩ := hd
  rw [List.length_take, chainBytes_length, hlen, Nat.min_eq_left]
  have hb := h.bytesPerCluster_pos
  have hdiv := Nat.lt_div_mul_add (a := r + fs.bytesPerCluster - 1) hb
  rw [clustersFor]
  omega

/-- What `fat32_read_file` reads, after a lookup that has found `found`. -/
lemma exists_reads_fat32ReadFile {v : Vol} {name : List UInt8} {found : Option Dirent}
    (hlook : Act.Reads (lookupRootFile fs name) v found) (bufsize : ℕ) :
    ∃ res, Act.Reads (fat32ReadFile fs name bufsize) v res ∧ ∀ bytes,
      res = some bytes ↔ ∃ entry, found = some entry ∧ entry.size ≤ bufsize ∧
        Delivers fs (asRead fs v.disk) (direntFirstCluster entry) (fs.totalClusters + 1)
          entry.size bytes := by
  rw [fat32ReadFile]
  cases found with
  | none => exact ⟨none, hlook.bind_none, fun bytes => by simp⟩
  | some entry =>
    simp only [Option.some.injEq, exists_eq_left']
    by_cases hfit : bufsize < entry.size
    · refine ⟨none, hlook.bind (by rw [if_pos hfit]; exact Act.Reads.fail _), fun bytes => ?_⟩
      exact ⟨fun hn => absurd hn (by simp), fun hd => absurd hd.1 (by omega)⟩
    · by_cases hempty : entry.size = 0
      · refine ⟨some [], hlook.bind ?_, fun bytes => ?_⟩
        · rw [if_neg hfit, if_pos hempty]
          exact Act.Reads.pure _ _
        · rw [hempty, delivers_zero h]
          simp [eq_comm]
      · by_cases hstart : clusterInRange fs (direntFirstCluster entry) = true
        · obtain ⟨res, hres, hiff⟩ := reads_readFileLoop_iff h
            (a := direntFirstCluster entry) (n := fs.totalClusters + 1) (r := entry.size) v []
          refine ⟨res, hlook.bind ?_, fun bytes => (hiff bytes).trans ?_⟩
          · rw [if_neg hfit, if_neg hempty, if_neg (by simp [hstart])]
            exact (Act.reads_guard v).bind hres
          · simp only [List.nil_append, exists_eq_right']
            exact ⟨fun hd => ⟨by omega, hd⟩, And.right⟩
        · refine ⟨none, hlook.bind ?_, fun bytes => ⟨fun hn => absurd hn (by simp), ?_⟩⟩
          · rw [if_neg hfit, if_neg hempty, if_pos (by simp [hstart])]
            exact Act.Reads.fail _
          · rintro ⟨-, hd⟩
            exact absurd (hd.pos h (Nat.pos_of_ne_zero hempty)).2 hstart

omit h in
/-- A chain that is long enough delivers its bytes. -/
lemma Delivers.of_chain (g : Geometry fs) {d : ℕ → UInt8} {l : List ℕ}
    (h : Chain ((view fs d).link fs) a l) (ha : InRange fs a)
    (hsize : r ≤ l.length * fs.bytesPerCluster) (hn : l.length ≤ n) :
    Delivers fs (asRead fs d) a n r ((chainBytes fs (view fs d) l).take r) := by
  induction l generalizing a n r with
  | nil => exact absurd rfl h.ne_nil
  | cons b t ih =>
    obtain rfl := h.head_eq
    obtain ⟨m, rfl⟩ : ∃ m, n = m + 1 := ⟨n - 1, by simp at hn; omega⟩
    have ha' := g.clusterInRange_iff.mpr ha
    rw [chainBytes_cons, List.take_append, clusterBytes_length, clusterBytes, ← g.asRead_data ha]
    by_cases h0 : r = 0
    · subst h0
      exact (delivers_zero g.mounted).mpr (by simp)
    by_cases hlast : r ≤ fs.bytesPerCluster
    · refine (delivers_last g.mounted (Nat.pos_of_ne_zero h0) hlast ha').mpr ?_
      rw [Nat.sub_eq_zero_of_le hlast, List.take_zero, List.append_nil, takeBytes_eq_take hlast]
    · refine (delivers_next_iff g.mounted (Nat.lt_of_not_le hlast) ha').mpr ?_
      cases h with
      | stop hs =>
        simp at hsize
        omega
      | @next _ b' _ hb ht =>
        rw [List.length_cons, Nat.succ_mul] at hsize
        refine ⟨b', _, (g.asRead_link ha d).trans hb,
          ih ht (View.fat_of_link_next hb).2 (by omega) (by simp at hn; omega), ?_⟩
        rw [List.take_of_length_le (by simp; omega)]

end Reading

section Geometric

variable {fs : Fs} (g : Geometry fs) {V : View} {a : ℕ} {l : List ℕ}

include g

lemma bytesPerCluster_pos : 0 < fs.bytesPerCluster := by
  have := g.cluster_pos
  rw [g.bytesPerCluster]
  omega

/-! ### Writing -/

/-- The contents of the clusters `l` may have changed; nothing else has. -/
structure Filled (V W : View) (l : List ℕ) : Prop where
  fat : W.fat = V.fat
  data : ∀ c, c ∉ l → W.data c = V.data c

omit g in
lemma filled_setData (V : View) {c : ℕ} (f : Buf) (t : List ℕ) :
    Filled V (V.setData c f) (c :: t) :=
  ⟨rfl, fun _ hb => Function.update_of_ne (fun he => hb (by simp [he])) _ _⟩

omit g in
lemma Filled.cons {V W : View} {c : ℕ} {f : Buf} {t : List ℕ} (h : Filled (V.setData c f) W t) :
    Filled V W (c :: t) :=
  ⟨h.fat, fun b hb => by
    rw [h.data b fun hbt => hb (by simp [hbt]), (filled_setData V f t).data b hb]⟩

/-- Step 4 of `fat32_write_file` on a chain of just the right length. -/
lemma does_writeDataLoop (calm : Prop) {v : Vol} {n : ℕ} {src : List UInt8}
    (h : Chain (V.link fs) a l) (ha : InRange fs a) (hV : view fs v.disk = V)
    (hle : src.length ≤ l.length * fs.bytesPerCluster)
    (hlt : (l.length - 1) * fs.bytesPerCluster < src.length) (hn : src.length ≤ n) :
    Act.Does calm (writeDataLoop fs n a src) v
      (fun w => Filled V (view fs w.disk) l)
      (fun _ w => Filled V (view fs w.disk) l ∧ chainBytes fs (view fs w.disk) l =
        src ++ List.replicate (l.length * fs.bytesPerCluster - src.length) 0)
      fun w => ¬calm ∧ Filled V (view fs w.disk) l := by
  induction l generalizing V a v n src with
  | nil => exact absurd rfl h.ne_nil
  | cons b t ih =>
    obtain rfl := h.head_eq
    obtain ⟨m, rfl⟩ : ∃ m, n = m + 1 := ⟨n - 1, by omega⟩
    have hpos := bytesPerCluster_pos g
    have hnot := (List.nodup_cons.mp h.nodup).1
    rw [writeDataLoop, if_neg (by omega)]
    refine Act.Does.bind ((does_writeCluster g calm v _ ha).mono ?_ (fun _ _ h => h) ?_) ?_
    · rintro w ⟨f, hw⟩
      rw [hw, hV]
      exact filled_setData V f t
    · rintro w ⟨hc, rfl⟩
      rw [hV]
      exact ⟨hc, rfl, fun _ _ => rfl⟩
    intro _ w hw
    rw [hV] at hw
    by_cases hlast : src.length ≤ fs.bytesPerCluster
    · -- the last chunk: the chain ends with this cluster
      have hchunk : (if src.length < fs.bytesPerCluster then src.length
          else fs.bytesPerCluster) = src.length := by
        split_ifs <;> omega
      obtain rfl : t = [] := by
        by_contra ht
        have := Nat.le_mul_of_pos_left fs.bytesPerCluster (List.length_pos_iff.mpr ht)
        rw [List.length_cons, Nat.add_sub_cancel] at hlt
        omega
      simp only [hchunk, Nat.sub_self, if_true] at hw ⊢
      refine Act.does_pure ⟨by rw [hw]; exact filled_setData V _ _, ?_⟩
      rw [hw, chainBytes_cons, chainBytes_nil, List.append_nil, clusterBytes_setData,
        takeBytes_padded src le_rfl hlast, List.take_length, List.length_singleton, Nat.one_mul]
    · have hchunk : (if src.length < fs.bytesPerCluster then src.length
          else fs.bytesPerCluster) = fs.bytesPerCluster := if_neg (by omega)
      simp only [hchunk, if_neg (show src.length - fs.bytesPerCluster ≠ 0 by omega)] at hw ⊢
      cases h with
      | stop hs =>
        simp at hle
        omega
      | @next _ b' _ hb ht =>
        have hnext := reads_fat32NextCluster g w ha
        rw [hw, View.link_congr (V := V.setData b _) (W := V) rfl, hb] at hnext
        refine Act.Does.bind (hnext.does.mono (fun _ h => h) (fun _ _ h => h) ?_) ?_
        · rintro x ⟨rfl, hx⟩
          refine ⟨fun hc => absurd (hx hc) (by simp), ?_⟩
          rw [hw]
          exact filled_setData V _ _
        · rintro r x ⟨rfl, hr⟩
          obtain rfl := Option.some.inj hr
          obtain ⟨k, hk⟩ : ∃ k, t.length = k + 1 :=
            ⟨t.length - 1, by have := List.length_pos_iff.mpr ht.ne_nil; omega⟩
          have hdrop : (src.drop fs.bytesPerCluster).length = src.length - fs.bytesPerCluster :=
            List.length_drop
          rw [List.length_cons, Nat.succ_mul] at hle
          rw [List.length_cons, Nat.add_sub_cancel, hk, Nat.succ_mul] at hlt
          have ht' : Chain ((V.setData b fun i => if i < fs.bytesPerCluster then
              if i < fs.bytesPerCluster then src.getD i 0 else 0 else 0).link fs) b' t :=
            ht.congr fun c _ => View.link_congr rfl
          refine (ih ht' (View.fat_of_link_next hb).2 hw (by omega)
            (by rw [hk, Nat.add_sub_cancel]; omega) (by omega)).mono
            (fun y hy => hy.cons) ?_ fun y hy => ⟨hy.1, hy.2.cons⟩
          rintro _ y ⟨hy, hbytes⟩
          have hfirst : clusterBytes fs (view fs y.disk) b = src.take fs.bytesPerCluster := by
            rw [clusterBytes, hy.data b hnot]
            refine (clusterBytes_setData _).trans ?_
            rw [takeBytes_padded src (by omega) le_rfl, Nat.sub_self, List.replicate_zero,
              List.append_nil]
          refine ⟨hy.cons, ?_⟩
          rw [chainBytes_cons, hfirst, hbytes, ← List.append_assoc, List.take_append_drop,
            hdrop, List.length_cons, Nat.succ_mul]
          refine congrArg _ (congrArg (List.replicate · 0) ?_)
          omega

end Geometric

end TownOS
