import StridedViews.Proofs.Sharing.Balance
import StridedViews.Proofs.Storage.Books

/-!
Moves: the least steps in which a memory changes, each with the holds that it takes from outside and
leaves there. Whatever is done to a memory is a row of moves with at most one deed, so what all moves
do to the balance, to the course of the buffers, to the books and to the views is what all operations
do.
-/

namespace StridedViews

open Numbered (next)

/-! ### Views -/

/-- How a view may look later: it keeps its layout, and its bytes until it is released. -/
structure View.Continues (v v' : View) : Prop where
  layout : v'.layout = v.layout
  source : v'.isReleased = true ∨ v'.source = v.source ∧ v'.isReleased = v.isReleased

theorem View.Continues.refl (v : View) : v.Continues v := ⟨rfl, .inr ⟨rfl, rfl⟩⟩

theorem View.Continues.trans {v v' v'' : View} (h : v.Continues v') (h' : v'.Continues v'') :
    v.Continues v'' := by
  refine ⟨h'.layout.trans h.layout, ?_⟩
  rcases h'.source with hr | ⟨hs, hr⟩
  · exact .inl hr
  · rcases h.source with hr' | ⟨hs', hr'⟩
    · exact .inl (hr.trans hr')
    · exact .inr ⟨hs.trans hs', hr.trans hr'⟩

namespace Memory

variable {i : ItemId} {m m' m'' : Memory}

/-- All views of one memory go on in another. -/
def Continues (m m' : Memory) : Prop :=
  ∀ i v, m.view? i = some v → ∃ v', m'.view? i = some v' ∧ v.Continues v'

theorem Continues.refl (m : Memory) : m.Continues m := fun _ v hv => ⟨v, hv, .refl v⟩

theorem Continues.trans (h : m.Continues m') (h' : m'.Continues m'') : m.Continues m'' := by
  intro i v hv
  obtain ⟨v', hv', hcont⟩ := h i v hv
  obtain ⟨v'', hv'', hcont'⟩ := h' i v' hv'
  exact ⟨v'', hv'', hcont.trans hcont'⟩

theorem view?_eq_some_iff {v : View} :
    m.view? i = some v ↔ ∃ n, m.item? i = some ⟨.view v, n⟩ := by
  rw [view?]
  split
  · next w n hget => simp [hget]
  · next hnot =>
    refine iff_of_false (fun h => nomatch h) ?_
    rintro ⟨n, hget⟩
    exact hnot v n hget

theorem object?_eq_some_iff {o : HostObject} :
    m.object? i = some o ↔ ∃ n, m.item? i = some ⟨.object o, n⟩ := by
  rw [object?]
  split
  · next w n hget => simp [hget]
  · next hnot =>
    refine iff_of_false (fun h => nomatch h) ?_
    rintro ⟨n, hget⟩
    exact hnot o n hget

theorem view?_put_self (m : Memory) (t : Thing) : (m.put t).2.view? (m.put t).1 =
    match t with
    | .view v => some v
    | .object _ | .text _ | .integer _ => none := by
  have hitem : (m.put t).2.item? (m.put t).1 = some ⟨t, 1⟩ := Numbered.get?_cons_next ..
  rw [view?, hitem]
  cases t <;> rfl

theorem view?_add_self (m : Memory) (t : Thing) : (m.add t).2.view? (m.add t).1 =
    match t with
    | .view v => some v
    | .object _ | .text _ | .integer _ => none :=
  view?_put_self ..

/-- The things of one memory stay what they are in another, with other counts of their shares. -/
def KeepsThings (m m' : Memory) : Prop :=
  ∀ i x, m.item? i = some x → ∃ n, m'.item? i = some { x with shares := n }

theorem KeepsThings.refl (m : Memory) : m.KeepsThings m := fun _ x hget => ⟨x.shares, hget⟩

theorem KeepsThings.trans (h : m.KeepsThings m') (h' : m'.KeepsThings m'') : m.KeepsThings m'' := by
  intro i x hget
  obtain ⟨n, hget'⟩ := h i x hget
  obtain ⟨n', hget''⟩ := h' i _ hget'
  exact ⟨n', hget''⟩

/-- Views go on where the things of the items stay what they are. -/
theorem KeepsThings.continues (h : m.KeepsThings m') : m.Continues m' := by
  intro i v hv
  obtain ⟨n, hget⟩ := view?_eq_some_iff.mp hv
  obtain ⟨n', hget'⟩ := h i _ hget
  exact ⟨v, view?_eq_some_iff.mpr ⟨n', hget'⟩, .refl v⟩

theorem KeepsThings.keepsObject {o : HostObject} (h : m.KeepsThings m') (ho : m.object? i = some o) :
    m'.object? i = some o := by
  obtain ⟨n, hget⟩ := object?_eq_some_iff.mp ho
  obtain ⟨n', hget'⟩ := h i _ hget
  exact object?_eq_some_iff.mpr ⟨n', hget'⟩

theorem get?_settleAll {xs : List Item} {x : Item} (holds : List Hold)
    (hget : Numbered.get? xs i = some x) :
    ∃ n, Numbered.get? (settleAll xs holds).1 i = some { x with shares := n } := by
  induction xs generalizing holds with
  | nil => cases hget
  | cons y older ih =>
    rw [settleAll, Numbered.get?, next_settleAll]
    rw [Numbered.get?] at hget
    split at hget
    · next hi =>
      cases hget
      refine ⟨(x.settle (next older) holds).1.shares, ?_⟩
      rw [if_pos hi, ← x.thing_settle (next older) holds]
    · next hi =>
      rw [if_neg hi]
      exact ih _ hget

theorem keepsThings_giveUp (m : Memory) (holds : List Hold) : m.KeepsThings (m.giveUp holds) :=
  fun _ _ hget => get?_settleAll holds hget

theorem keepsThings_share (m : Memory) (i : ItemId) : m.KeepsThings (m.share i) := by
  intro j x hget
  rw [item?] at hget
  rw [item?, share, Numbered.get?_update, hget]
  split
  · exact ⟨_, rfl⟩
  · exact ⟨_, rfl⟩

theorem keepsThings_shareAll (m : Memory) (holds : List Hold) : m.KeepsThings (m.shareAll holds) := by
  induction holds generalizing m with
  | nil => exact .refl m
  | cons h rest ih =>
    cases h with
    | buffer id sort => exact ih m
    | share i => exact (m.keepsThings_share i).trans (ih _)

theorem keepsThings_add (m : Memory) (t : Thing) : m.KeepsThings (m.add t).2 := by
  refine (m.keepsThings_shareAll t.holds).trans ?_
  intro j x hget
  exact ⟨x.shares, Numbered.get?_cons_of_get? _ hget⟩

theorem continues_setView {v v' : View} (hv : m.view? i = some v) (hcont : v.Continues v') :
    m.Continues (m.setView i v') := by
  intro j w hw
  obtain ⟨n, hget⟩ := view?_eq_some_iff.mp hw
  rw [item?] at hget
  by_cases hj : j = i
  · subst hj
    rw [hv] at hw
    cases hw
    refine ⟨v', view?_eq_some_iff.mpr ⟨n, ?_⟩, hcont⟩
    rw [item?, setView, Numbered.get?_update, if_pos rfl, hget, Option.map_some]
  · refine ⟨w, view?_eq_some_iff.mpr ⟨n, ?_⟩, .refl w⟩
    rw [item?, setView, Numbered.get?_update, if_neg hj, hget]

/-- What is set is a view, and no object is one. -/
theorem object?_setView {j : ItemId} {v v' : View} {n : Nat} {o : HostObject}
    (hget : m.item? j = some ⟨.view v, n⟩) (ho : m.object? i = some o) :
    (m.setView j v').object? i = some o := by
  obtain ⟨n', hobject⟩ := object?_eq_some_iff.mp ho
  have hi : i ≠ j := by
    rintro rfl
    cases hget.symm.trans hobject
  refine object?_eq_some_iff.mpr ⟨n', ?_⟩
  rw [item?, setView, Numbered.get?_update, if_neg hi]
  exact hobject

theorem pool_shareAll (m : Memory) (holds : List Hold) : (m.shareAll holds).pool = m.pool := by
  induction holds generalizing m with
  | nil => rfl
  | cons h rest ih => cases h <;> exact ih _

@[simp] theorem pool_add (m : Memory) (t : Thing) : (m.add t).2.pool = m.pool :=
  m.pool_shareAll t.holds

/-! ### Pools under many endings -/

theorem course_letGoAll (p : Pool) (holds : List Hold) : p.Course none (holds.foldl letGo p) := by
  induction holds generalizing p with
  | nil => exact .of_eq rfl fun _ => rfl
  | cons h rest ih =>
    cases h with
    | buffer id sort =>
      exact (Pool.course_bring (e := .hold sort) fun h => nomatch h).trans (ih _)
    | share i => exact ih p

theorem keepsBooks_letGoAll (p : Pool) (holds : List Hold) :
    p.KeepsBooks (holds.foldl letGo p) := by
  induction holds generalizing p with
  | nil => exact .refl p
  | cons h rest ih =>
    cases h with
    | buffer id sort => exact (Pool.keepsBooks_bring ..).trans (ih _)
    | share i => exact ih p

theorem length_registries_letGoAll (p : Pool) (holds : List Hold) :
    (holds.foldl letGo p).registries.length = p.registries.length := by
  induction holds generalizing p with
  | nil => rfl
  | cons h rest ih =>
    rw [List.foldl_cons, ih]
    cases h with
    | buffer id sort => exact Pool.length_registries_bring ..
    | share i => rfl

end Memory

/-! ### Moves -/

/-- A least step of a memory, with the holds on it from outside. -/
inductive Move : Option Deed → Memory → Multiset Hold → Memory → Multiset Hold → Prop where
  | giveUp {m : Memory} {outside : Multiset Hold} (holds : List Hold) :
      Move none m ((holds : Multiset Hold) + outside) (m.giveUp holds) outside
  | hold {m : Memory} {outside : Multiset Hold} {id : BufferId} {h : BufferHold} {pool : Pool}
      (hp : m.pool.hold id h = .ok pool) :
      Move (h.deed id) m outside { m with pool } ({.buffer id h} + outside)
  | shareBuffer {m : Memory} {outside : Multiset Hold} {id : BufferId} {b : Buffer}
      (hb : m.pool.get? id = some b) (hheld : b.isHeld = true) :
      Move none m outside { m with pool := m.pool.share id } ({.buffer id .handle} + outside)
  | share {m : Memory} {outside : Multiset Hold} {i : ItemId} (hi : m.Living i) :
      Move none m outside (m.share i) ({.share i} + outside)
  | add {m : Memory} {outside : Multiset Hold} {t : Thing} (ht : t.Sound)
      (hliving : ∀ j, .share j ∈ t.holds → m.Living j) :
      Move none m ((t.holds.filter Hold.isOnBuffer : Multiset Hold) + outside) (m.add t).2
        ({.share (m.add t).1} + outside)
  | setView {m : Memory} {outside : Multiset Hold} {i : ItemId} {v v' : View} {n : Nat}
      {left : Multiset Hold} (hget : m.item? i = some ⟨.view v, n⟩) (hn : n = 0 → left = 0)
      (hv' : (Thing.view v).Sound → (Thing.view v').Sound) (hcont : v.Continues v')
      (hleft : (v.holds : Multiset Hold) = left + (v'.holds : Multiset Hold)) :
      Move none m outside (m.setView i v') (left + outside)
  | overwrite {m : Memory} {outside : Multiset Hold} {id : BufferId} {old new : List UInt8}
      (hold : m.pool.bytes id = .ok old) (hlen : new.length = old.length) :
      Move none m outside { m with pool := m.pool.overwrite id new } outside
  | release {m : Memory} {outside : Multiset Hold} {id : BufferId} {b : Buffer}
      (hb : m.pool.get? id = some b) :
      Move (some (.released id)) m outside { m with pool := m.pool.bring id .release } outside
  | create {m : Memory} {outside : Multiset Hold} {s : Store} {r : Option RegistryId}
      (hr : ∀ n, r = some n → n < m.pool.registries.length) :
      Move (some (.made (m.pool.create s r).1 s r)) m ((s.holds : Multiset Hold) + outside)
        { m with pool := (m.pool.create s r).2 }
        ({.buffer (m.pool.create s r).1 .handle} + outside)
  | giveBack {m : Memory} {outside : Multiset Hold} (label : String) :
      Move none m outside
        { m with pool := { m.pool with givenBack := m.pool.givenBack ++ [⟨none, label⟩] } } outside
  | makeRegistry {m : Memory} {outside : Multiset Hold} :
      Move none m outside
        { m with pool := { m.pool with registries := m.pool.registries ++ [{}] } } outside

/-- A row of moves with at most one deed, which comes first. A row in which a buffer is made has no
other move. -/
inductive Moves : Option Deed → Memory → Multiset Hold → Memory → Multiset Hold → Prop where
  | none {m : Memory} {outside : Multiset Hold} : Moves none m outside m outside
  | one {d : Option Deed} {m m' : Memory} {outside outside' : Multiset Hold}
      (h : Move d m outside m' outside') : Moves d m outside m' outside'
  | more {d : Option Deed} {m m' m'' : Memory} {outside outside' outside'' : Multiset Hold}
      (h : Moves d m outside m' outside') (hd : Deed.MakesNone d)
      (h' : Move Option.none m' outside' m'' outside'') : Moves d m outside m'' outside''

variable {id : BufferId} {i : ItemId} {d : Option Deed} {m m' m'' : Memory}
  {outside outside' outside'' : Multiset Hold}

namespace Move

/-- A view is replaced by one that holds the same. -/
theorem replaceView {v v' : View} {n : Nat} (outside : Multiset Hold)
    (hget : m.item? i = some ⟨.view v, n⟩) (hv' : (Thing.view v).Sound → (Thing.view v').Sound)
    (hcont : v.Continues v') (hholds : v'.holds = v.holds) :
    Move none m outside (m.setView i v') outside := by
  have hleft : (v.holds : Multiset Hold) = 0 + (v'.holds : Multiset Hold) := by
    rw [hholds, zero_add]
  have hmove : Move none m outside (m.setView i v') (0 + outside) :=
    .setView hget (fun _ => rfl) hv' hcont hleft
  rwa [zero_add] at hmove

theorem balanced (h : Move d m outside m' outside') (hm : m.Balanced outside) :
    m'.Balanced outside' := by
  cases h with
  | giveUp holds => exact hm.giveUp
  | hold hp => exact hm.hold hp
  | shareBuffer hb hheld => exact hm.gain hb (.inl ⟨rfl, hheld⟩)
  | share hi => exact hm.share hi
  | add ht hliving => exact hm.add ht hliving
  | setView hget hn hv' hcont hleft => exact hm.setView hget hn hv' hleft
  | overwrite hold hlen => exact hm.overwrite ..
  | release hb => exact hm.bringRelease ..
  | create hr => exact hm.create _
  | giveBack label => exact ⟨hm.items, ⟨hm.pool.buffers, hm.pool.faultless⟩, hm.known⟩
  | makeRegistry => exact ⟨hm.items, ⟨hm.pool.buffers, hm.pool.faultless⟩, hm.known⟩

theorem course (h : Move d m outside m' outside') : m.pool.Course d m'.pool := by
  cases h with
  | giveUp holds => exact Memory.course_letGoAll ..
  | hold hp =>
    obtain ⟨b, hb, -, rfl⟩ := Pool.hold_eq_ok_iff.mp hp
    exact Pool.course_gain ⟨b, hb⟩
  | shareBuffer hb hheld => exact Pool.course_gain (h := .handle) ⟨_, hb⟩
  | share hi => exact .of_eq rfl fun _ => rfl
  | add ht hliving => exact .of_eq (congrArg _ (Memory.pool_add ..)) fun _ => by rw [Memory.pool_add]
  | setView hget hn hv' hcont hleft => exact .of_eq rfl fun _ => rfl
  | overwrite hold hlen => exact Pool.course_overwrite hold hlen
  | release hb => exact Pool.course_bring (e := .release) fun _ => Option.isSome_of_eq_some hb
  | create hr => exact Pool.course_create ..
  | giveBack label => exact .of_eq rfl fun id => by simp [Pool.returned]
  | makeRegistry => exact .of_eq rfl fun _ => rfl

/-- A move that makes no buffer keeps the books. -/
theorem keepsBooks (h : Move d m outside m' outside') (hd : Deed.MakesNone d) :
    m.pool.KeepsBooks m'.pool := by
  cases h with
  | giveUp holds => exact Memory.keepsBooks_letGoAll ..
  | hold hp =>
    obtain ⟨b, hb, -, rfl⟩ := Pool.hold_eq_ok_iff.mp hp
    exact Pool.keepsBooks_gain ..
  | shareBuffer hb hheld => exact Pool.keepsBooks_gain ..
  | share hi => exact .refl _
  | add ht hliving =>
    rw [Memory.pool_add]
    exact .refl _
  | setView hget hn hv' hcont hleft => exact .refl _
  | overwrite hold hlen => exact Pool.keepsBooks_overwrite ..
  | release hb => exact Pool.keepsBooks_bring ..
  | create hr => exact absurd rfl (hd _ _ _)
  | giveBack label => exact .of_lengths (fun _ => rfl) le_rfl (fun _ => rfl) fun _ => rfl
  | makeRegistry => exact Pool.keepsBooks_makeRegistry _

/-- No registry goes away. -/
theorem length_registries_le (h : Move d m outside m' outside') :
    m.pool.registries.length ≤ m'.pool.registries.length := by
  cases h with
  | giveUp holds => exact (Memory.length_registries_letGoAll ..).ge
  | hold hp =>
    obtain ⟨b, hb, -, rfl⟩ := Pool.hold_eq_ok_iff.mp hp
    exact le_rfl
  | add ht hliving => rw [Memory.pool_add]
  | release hb => exact (Pool.length_registries_bring ..).ge
  | create hr => rw [Pool.create, Pool.length_registries_book]
  | makeRegistry => simp
  | shareBuffer | share | setView | overwrite | giveBack => exact le_rfl

theorem continues (h : Move d m outside m' outside') : m.Continues m' := by
  cases h with
  | giveUp holds => exact (m.keepsThings_giveUp holds).continues
  | share hi => exact (m.keepsThings_share _).continues
  | add ht hliving => exact (m.keepsThings_add _).continues
  | setView hget hn hv' hcont hleft =>
    exact Memory.continues_setView (Memory.view?_eq_some_iff.mpr ⟨_, hget⟩) hcont
  | hold | shareBuffer | overwrite | release | create | giveBack | makeRegistry =>
    exact Memory.Continues.refl m

theorem keepsObject {o : HostObject} (h : Move d m outside m' outside') (ho : m.object? i = some o) :
    m'.object? i = some o := by
  cases h with
  | giveUp holds => exact (m.keepsThings_giveUp holds).keepsObject ho
  | share hi => exact (m.keepsThings_share _).keepsObject ho
  | add ht hliving => exact (m.keepsThings_add _).keepsObject ho
  | setView hget hn hv' hcont hleft => exact Memory.object?_setView hget ho
  | hold | shareBuffer | overwrite | release | create | giveBack | makeRegistry => exact ho

end Move

namespace Moves

theorem balanced (h : Moves d m outside m' outside') (hm : m.Balanced outside) :
    m'.Balanced outside' := by
  induction h with
  | none => exact hm
  | one h => exact h.balanced hm
  | more _ _ h' ih => exact h'.balanced (ih hm)

theorem course (h : Moves d m outside m' outside') : m.pool.Course d m'.pool := by
  induction h with
  | none => exact .of_eq rfl fun _ => rfl
  | one h => exact h.course
  | more _ _ h' ih => exact ih.trans h'.course

theorem keepsBooks (h : Moves d m outside m' outside') (hd : Deed.MakesNone d) :
    m.pool.KeepsBooks m'.pool := by
  induction h with
  | none => exact .refl _
  | one h => exact h.keepsBooks hd
  | more _ hd' h' ih => exact (ih hd').trans (h'.keepsBooks fun _ _ _ h => nomatch h)

/-- A row of moves in which a buffer is made does nothing else. -/
theorem create_of_makes (h : Moves d m outside m' outside') (hd : ¬ Deed.MakesNone d) :
    ∃ s r, d = some (.made (m.pool.create s r).1 s r) ∧
      (∀ n, r = some n → n < m.pool.registries.length) ∧ m'.pool = (m.pool.create s r).2 := by
  cases h with
  | none => exact absurd (fun _ _ _ h => nomatch h) hd
  | more _ hd' _ => exact absurd hd' hd
  | one h =>
    cases h with
    | create hr => exact ⟨_, _, rfl, hr, rfl⟩
    | @hold _ _ id h pool hp => cases h <;> exact absurd (fun _ _ _ h => nomatch h) hd
    | giveUp | shareBuffer | share | add | setView | overwrite | release | giveBack
    | makeRegistry => exact absurd (fun _ _ _ h => nomatch h) hd

theorem booked (h : Moves d m outside m' outside') (hb : m.pool.Booked) : m'.pool.Booked := by
  by_cases hd : Deed.MakesNone d
  · exact (h.keepsBooks hd).booked hb
  · obtain ⟨s, r, -, hr, heq⟩ := h.create_of_makes hd
    rw [heq]
    exact Pool.booked_create hr hb

/-- The highest number of live bytes rises to the present one where that is higher. -/
theorem peakLiveBytes (h : Moves d m outside m' outside')
    (hle : ∀ r, (m.pool.registry r).liveBytes ≤ (m.pool.registry r).stats.peakLiveBytes)
    (r : RegistryId) :
    (m'.pool.registry r).stats.peakLiveBytes =
      max (m.pool.registry r).stats.peakLiveBytes (m'.pool.registry r).liveBytes := by
  by_cases hd : Deed.MakesNone d
  · have hkeeps := h.keepsBooks hd
    rw [hkeeps.peakLiveBytes, max_eq_left ((hkeeps.liveBytes_le r).trans (hle r))]
  · obtain ⟨s, r', -, hr, heq⟩ := h.create_of_makes hd
    rw [heq, Pool.registry_create hr]
    split
    · rfl
    · rw [max_eq_left (hle r)]

theorem length_registries_le (h : Moves d m outside m' outside') :
    m.pool.registries.length ≤ m'.pool.registries.length := by
  induction h with
  | none => exact le_rfl
  | one h => exact h.length_registries_le
  | more _ _ h' ih => exact ih.trans h'.length_registries_le

theorem continues (h : Moves d m outside m' outside') : m.Continues m' := by
  induction h with
  | none => exact .refl _
  | one h => exact h.continues
  | more _ _ h' ih => exact ih.trans h'.continues

/-- Objects never change. -/
theorem keepsObject {o : HostObject} (h : Moves d m outside m' outside') (ho : m.object? i = some o) :
    m'.object? i = some o := by
  induction h with
  | none => exact ho
  | one h => exact h.keepsObject ho
  | more _ _ h' ih => exact h'.keepsObject (ih ho)

end Moves

end StridedViews
