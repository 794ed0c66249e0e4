import StridedViews.Proofs.Sharing.Effects
import StridedViews.Proofs.Sharing.Run

/-!
Remembered hashes. A view learns its hash when it is hashed, of the bytes that it reads then, and from
no other operation but one that sets it. So a hash that a view remembers after a run is that of bytes
that it read when it was hashed during the run (`Client.Run.exists_hashedOver`), and of two views that
read the same bytes both have the same hash unless one was hashed over other bytes
(`Client.Run.hash_eq_of_read_eq`). The bytes of a read-only view can change behind its back, and the
hash that it remembers does not follow them (`Client.Run.equal_bytes_unequal_hashes`).
-/

namespace StridedViews

namespace View

variable {v : View} {p : Pool}

/-- The hash of a view is the one that it remembers, or that of the bytes that it reads. -/
theorem contentHash_eq_ok {h : Int} (hh : v.contentHash p = .ok h) :
    v.cachedHash = some h ∨ ∃ seen, v.read p = .ok seen ∧ h = hashOf seen := by
  obtain ⟨_, -, hh⟩ := bind_eq_ok_iff.mp hh
  by_cases hro : (!v.layout.readOnly) = true
  · rw [if_pos hro] at hh
    cases hh
  · rw [if_neg hro] at hh
    cases hc : v.cachedHash with
    | some n =>
      rw [hc] at hh
      exact .inl (congrArg some (Except.ok.inj hh))
    | none =>
      rw [hc] at hh
      obtain ⟨seen, hread, heq⟩ := bind_eq_ok_iff.mp hh
      exact .inr ⟨seen, hread, (Except.ok.inj heq).symm⟩

/-- A read-only view that can be read has a hash. -/
theorem exists_contentHash {bs : List UInt8} (hro : v.layout.readOnly = true)
    (hread : v.read p = .ok bs) : ∃ h, v.contentHash p = .ok h := by
  obtain ⟨region, hregion, -⟩ := bind_eq_ok_iff.mp hread
  obtain ⟨_, hlive, -⟩ := bind_eq_ok_iff.mp hregion
  unfold contentHash
  cases hc : v.cachedHash with
  | some h => exact ⟨h, by rw [hlive, hro]; rfl⟩
  | none => exact ⟨hashOf bs, by rw [hlive, hro, hread]; rfl⟩

end View

namespace Client

variable {c : Client} {op : Op} {i : ItemId}

/-- Only setting the hash of a view and hashing it change what it remembers. -/
theorem Op.of_effect_hashed {o : Outcome} {h : Int} (he : op.effect o = .changed i (.hashed h)) :
    op = .setHash i h ∨ op = .hash i ∧ o = .integer h := by
  unfold Op.effect at he
  split at he
  · cases he
    exact .inl rfl
  · cases he
    exact .inr ⟨rfl, rfl⟩
  · cases he
  · cases he
  · cases he
  · cases he
  · split at he <;> cases he
  · cases he
  · cases he
  · cases he
  · cases he

/-- A view that is hashed has the hash that is returned. -/
theorem contentHash_of_step {h : Int} (ho : (c.step (.hash i)).1 = .integer h) :
    ∃ v, c.memory.view? i = some v ∧ v.contentHash c.pool = .ok h := by
  rw [step, onView] at ho
  cases hv : c.memory.view? i with
  | none =>
    rw [hv] at ho
    cases ho
  | some v =>
    simp only [hv, given] at ho
    split at ho
    · cases hhash : c.memory.contentHash i v with
      | error e =>
        rw [hhash] at ho
        cases ho
      | ok made =>
        rw [hhash] at ho
        obtain ⟨n, hn, hmade⟩ := bind_eq_ok_iff.mp hhash
        cases hmade
        cases ho
        exact ⟨v, rfl, hn⟩
    · cases ho

/-- A hash that a view remembers it remembered before, or it was hashed over bytes that have it, or it
was set. -/
theorem learns_step (c : Client) (op : Op) {v' : View} {h : Int}
    (hv' : (c.step op).2.memory.view? i = some v') (hh : v'.cachedHash = some h) :
    (∃ v, c.memory.view? i = some v ∧ v.cachedHash = some h) ∨
      (op = .hash i ∧ ∃ v seen, c.memory.view? i = some v ∧ v.read c.pool = .ok seen ∧
        h = View.hashOf seen) ∨
      op = .setHash i h ∧ h ≠ -1 := by
  have heffects := c.effects_step op
  have hviews := (heffects.views i).symm.trans hv'
  cases heffect : op.effect (c.step op).1 with
  | quiet =>
    rw [heffect] at hviews
    exact .inl ⟨v', hviews, hh⟩
  | built j new =>
    rw [heffect, ViewEffect.apply] at hviews
    split at hviews
    · cases hviews
      have hnew := (heffects.new j v' heffect).2
      cases hnew.cachedHash.symm.trans hh
    · exact .inl ⟨v', hviews, hh⟩
  | changed j change =>
    rw [heffect, ViewEffect.apply] at hviews
    split at hviews
    · next hj =>
      subst hj
      obtain ⟨v, hv, rfl⟩ := Option.map_eq_some_iff.mp hviews
      cases change with
      | hashed n =>
        obtain ⟨hne, rfl⟩ : n ≠ -1 ∧ n = h := by simpa [ViewChange.apply, View.withHash] using hh
        rcases Op.of_effect_hashed heffect with rfl | ⟨rfl, ho⟩
        · exact .inr (.inr ⟨rfl, hne⟩)
        · obtain ⟨w, hw, hhash⟩ := contentHash_of_step ho
          cases hv.symm.trans hw
          rcases View.contentHash_eq_ok hhash with hcached | ⟨seen, hread, hseen⟩
          · exact .inl ⟨v, hv, hcached⟩
          · exact .inr (.inl ⟨rfl, v, seen, hv, hread, hseen⟩)
      | begun | ended | acquired | dropped | released => exact .inl ⟨v, hv, hh⟩
    · exact .inl ⟨v', hviews, hh⟩

namespace Run

variable {ops : List Op} {seen bs : List UInt8}

/-- A view was hashed, when it read some bytes. -/
def HashedOver (ops : List Op) (i : ItemId) (seen : List UInt8) : Prop :=
  ∃ before later v, ops = before ++ .hash i :: later ∧
    (of before).client.memory.view? i = some v ∧ v.read (of before).client.pool = .ok seen

theorem HashedOver.concat (h : HashedOver ops i seen) (op : Op) : HashedOver (ops ++ [op]) i seen := by
  obtain ⟨before, later, v, rfl, hv, hread⟩ := h
  exact ⟨before, later ++ [op], v, by simp, hv, hread⟩

/-- A hash that a view remembers is that of bytes over which it was hashed. -/
theorem exists_hashedOver (hset : ∀ i h, .setHash i h ∉ ops) {v : View} {h : Int}
    (hv : (of ops).client.memory.view? i = some v) (hh : v.cachedHash = some h) :
    ∃ seen, HashedOver ops i seen ∧ h = View.hashOf seen := by
  induction ops using List.reverseRecOn generalizing i v h with
  | nil => cases hv
  | append_singleton ops op ih =>
    have hset' : ∀ i h, .setHash i h ∉ ops := fun i h hm => hset i h (List.mem_append_left _ hm)
    rw [of_concat] at hv
    rcases (of ops).client.learns_step op hv hh with ⟨u, hu, hhu⟩ | ⟨hop, u, seen, hu, hread, hseen⟩ |
      ⟨hop, -⟩
    · obtain ⟨seen, hover, hseen⟩ := ih hset' hu hhu
      exact ⟨seen, hover.concat op, hseen⟩
    · exact ⟨seen, ⟨ops, [], u, by rw [hop], hu, hread⟩, hseen⟩
    · exact absurd (List.mem_append_right ops (by simp [hop])) (hset i h)

/-- The word that stands for no hash is never remembered as one. -/
theorem cachedHash_ne (ops : List Op) {v : View} (hv : (of ops).client.memory.view? i = some v) :
    v.cachedHash ≠ some (-1) := by
  induction ops using List.reverseRecOn generalizing i v with
  | nil => cases hv
  | append_singleton ops op ih =>
    intro hh
    rw [of_concat] at hv
    rcases (of ops).client.learns_step op hv hh with ⟨u, hu, hhu⟩ | ⟨-, u, seen, -, -, hseen⟩ |
      ⟨-, hne⟩
    · exact ih hu hhu
    · exact View.hashOf_ne seen hseen.symm
    · exact hne rfl

/-- A view read these bytes whenever it was hashed. -/
def HashedOnlyOver (ops : List Op) (i : ItemId) (bs : List UInt8) : Prop :=
  ∀ seen, HashedOver ops i seen → seen = bs

/-- A read-only view that can be read has a hash, which is that of its bytes unless the view was hashed
over others. -/
theorem exists_contentHash (hset : ∀ i h, .setHash i h ∉ ops) {v : View}
    (hv : (of ops).client.memory.view? i = some v) (hro : v.layout.readOnly = true)
    (hread : v.read (of ops).client.pool = .ok bs) :
    ∃ h m, (of ops).client.memory.contentHash i v = .ok (h, m) ∧
      (HashedOnlyOver ops i bs → h = View.hashOf bs) := by
  obtain ⟨h, hh⟩ := View.exists_contentHash hro hread
  refine ⟨h, _, bind_eq_ok_iff.mpr ⟨h, hh, rfl⟩, fun honly => ?_⟩
  rcases View.contentHash_eq_ok hh with hcached | ⟨seen, hseen, heq⟩
  · obtain ⟨seen, hover, heq⟩ := exists_hashedOver hset hv hcached
    rw [heq, honly seen hover]
  · cases hread.symm.trans hseen
    exact heq

/-- After any run in which no hash is set, two read-only views that read the same bytes both have a
hash, and the same one unless one of them was hashed while it read other bytes. -/
theorem hash_eq_of_read_eq (hset : ∀ i h, .setHash i h ∉ ops) {j : ItemId} {v w : View}
    (hv : (of ops).client.memory.view? i = some v) (hw : (of ops).client.memory.view? j = some w)
    (hvro : v.layout.readOnly = true) (hwro : w.layout.readOnly = true)
    (hvread : v.read (of ops).client.pool = .ok bs)
    (hwread : w.read (of ops).client.pool = .ok bs) :
    ∃ h h' m m', (of ops).client.memory.contentHash i v = .ok (h, m) ∧
      (of ops).client.memory.contentHash j w = .ok (h', m') ∧
      (HashedOnlyOver ops i bs → HashedOnlyOver ops j bs → h = h') := by
  obtain ⟨h, m, hh, heq⟩ := exists_contentHash hset hv hvro hvread
  obtain ⟨h', m', hh', heq'⟩ := exists_contentHash hset hw hwro hwread
  refine ⟨h, h', m, m', hh, hh', fun honly honly' => ?_⟩
  rw [heq honly, heq' honly']

/-- A layout of one byte. -/
def oneByte : Layout := ⟨1, 1, .uint8, "B", [1], [1], [], true, 0⟩

/-- A view of a buffer, which is hashed, and a view of bytes of its own. -/
def hashedOnce : List Op :=
  [.ownStore [7], .makeBuffer (.owned [7]) none, .viewOver oneByte 1 none .bestEffort, .hash 1,
    .viewAliased oneByte [7] none .bestEffort (ViewFlags.ofLayout oneByte)]

/-- Views of the same byte in different places have the same hash. -/
theorem hash_eq_of_read_eq_hashedOnce :
    ∃ v w h m m', (of hashedOnce).client.memory.view? 1 = some v ∧
      (of hashedOnce).client.memory.view? 2 = some w ∧
      (of hashedOnce).client.memory.contentHash 1 v = .ok (h, m) ∧
      (of hashedOnce).client.memory.contentHash 2 w = .ok (h, m') := by
  have hset : ∀ i h, .setHash i h ∉ hashedOnce := by simp [hashedOnce]
  obtain ⟨h, h', m, m', hh, hh', heq⟩ := hash_eq_of_read_eq hset (i := 1) (j := 2) rfl rfl rfl rfl
    (show _ = Except.ok [7] from rfl) rfl
  have honly : HashedOnlyOver hashedOnce 1 [7] := by
    rintro seen ⟨before, later, v, heq, hv, hread⟩
    rcases before with _ | ⟨_, _ | ⟨_, _ | ⟨_, _ | ⟨_, _ | ⟨_, before⟩⟩⟩⟩⟩ <;>
      simp [hashedOnce] at heq
    obtain ⟨rfl, rfl, rfl, -⟩ := heq
    cases hv
    exact (Except.ok.inj hread).symm
  have honly' : HashedOnlyOver hashedOnce 2 [7] := by
    rintro seen ⟨before, later, v, heq, -, -⟩
    have hmem : Op.hash 2 ∈ hashedOnce := by simp [heq]
    simp [hashedOnce] at hmem
  obtain rfl := heq honly honly'
  exact ⟨_, _, h, m, m', rfl, rfl, hh, hh'⟩

/-- A view of a buffer is hashed before the buffer is written, and a second view is made
afterwards. -/
def hashedThenWritten : List Op :=
  [.ownStore [0], .makeBuffer (.owned [0]) none, .viewOver oneByte 1 none .bestEffort, .hash 1,
    .writeBuffer 1 [1], .viewOver oneByte 1 none .bestEffort]

/-- The first view remembers the hash of the byte that was there: two views that read the same byte
have different hashes. -/
theorem equal_bytes_unequal_hashes :
    (∀ i h, .setHash i h ∉ hashedThenWritten) ∧
    ∃ v w h h' m m', (of hashedThenWritten).client.memory.view? 1 = some v ∧
      (of hashedThenWritten).client.memory.view? 2 = some w ∧
      v.layout.readOnly = true ∧ w.layout.readOnly = true ∧
      v.read (of hashedThenWritten).client.pool = .ok [1] ∧
      w.read (of hashedThenWritten).client.pool = .ok [1] ∧
      (of hashedThenWritten).client.memory.contentHash 1 v = .ok (h, m) ∧
      (of hashedThenWritten).client.memory.contentHash 2 w = .ok (h', m') ∧ h ≠ h' := by
  have hne : View.hashOf [0] ≠ View.hashOf [1] := by decide
  exact ⟨by simp [hashedThenWritten], _, _, _, _, _, _, rfl, rfl, rfl, rfl, rfl, rfl, rfl, rfl, hne⟩

end Run

end Client

end StridedViews
