import StridedViews.Proofs.Sharing.Lifecycle

/-!
Views suit their bytes. When a view is built, its layout is checked against the rights and the length
of the bytes that it is to lie over. Neither of these changes afterwards, nor does the layout, so after
any run every view still has what was checked (`Client.Run.suited`).
-/

namespace StridedViews

/-- A view asks for no more rights than its bytes give, and its layout stays inside them. -/
structure View.Suited (p : Pool) (v : View) : Prop where
  managed : ∀ id, v.buffer? = some id → ∃ b, p.get? id = some b ∧
    (b.readOnly = true → v.layout.readOnly = true) ∧
    Region.checkExtent v.layout b.length = .ok ()
  aliased : ∀ bytes, v.source = .aliased bytes →
    v.layout.readOnly = true ∧ Region.checkExtent v.layout bytes.length = .ok ()

namespace View

variable {p p' : Pool} {v : View} {d : Option Deed}

theorem Suited.course (h : v.Suited p) (hc : p.Course d p') : v.Suited p' := by
  refine ⟨fun id hid => ?_, h.aliased⟩
  obtain ⟨b, hb, hrights, hextent⟩ := h.managed id hid
  obtain ⟨b', hb', hcont, -⟩ := hc.old id b hb
  exact ⟨b', hb', fun hro => hrights (hcont.readOnly ▸ hro), hcont.length ▸ hextent⟩

/-- A view that is released while it is over bytes of its own keeps them. -/
theorem aliased_of_released {bytes : List UInt8} (h : v.released.source = .aliased bytes) :
    v.source = .aliased bytes := by
  rw [released] at h
  cases hsource : v.source with
  | aliased own =>
    rw [hsource] at h
    exact h
  | managed buffer =>
    rw [hsource] at h
    cases h

theorem Suited.apply (h : v.Suited p) (change : ViewChange) : (change.apply v).Suited p := by
  cases change with
  | released =>
    refine ⟨fun id hid => absurd (hid.symm.trans v.buffer?_released) (Option.some_ne_none id), ?_⟩
    exact fun bytes hbytes => h.aliased bytes (aliased_of_released hbytes)
  | hashed | begun | ended | acquired | dropped => exact ⟨h.managed, h.aliased⟩

theorem suited_of_checkSource (h : checkSource p v.layout v.source = .ok ()) : v.Suited p := by
  constructor
  · intro id hid
    rw [buffer?] at hid
    split at hid
    · next buffer hsource =>
      subst hid
      rw [hsource] at h
      obtain ⟨b, hb, -, hrights, hextent⟩ := checkBuffer_eq_ok_iff.mp h
      refine ⟨b, hb, fun hro => ?_, hextent⟩
      exact hrights.resolve_left (by rw [hro]; exact Bool.noConfusion)
    · cases hid
  · intro bytes hsource
    rw [hsource, checkSource] at h
    split at h
    · next hro => exact ⟨hro, h⟩
    · cases h

end View

namespace Client

variable {c : Client} {op : Op} {i : ItemId} {v : View}

/-! ### Views that are built -/

theorem item_of_given {there : Bool} {act : Outcome × Client}
    (h : (c.given there act).1 = .item i) : act.1 = .item i := by
  rw [given] at h
  split at h
  · exact h
  · cases h

theorem made_of_keepView {made : Except ViewError ItemId × Memory}
    (h : (c.keepView made).1 = .item i) : ∃ m, made = (.ok i, m) := by
  obtain ⟨e | j, m⟩ := made
  · cases h
  · cases h
    exact ⟨m, rfl⟩

theorem item_of_built {o : Outcome} (h : op.effect o = .built i v) : o = .item i := by
  unfold Op.effect at h
  split at h
  all_goals
    -- a view that is released may have been released before
    try split at h
  all_goals cases h <;> rfl

/-- A view that an operation builds has a layout that suits its source. -/
theorem checkSource_of_built (h : op.effect (c.step op).1 = .built i v) :
    View.checkSource c.pool v.layout v.source = .ok () := by
  have hitem := item_of_built h
  rw [hitem] at h
  cases op with
  | viewOver l id owner policy =>
    cases h
    obtain ⟨m, hmade⟩ := made_of_keepView (item_of_given hitem)
    exact (Memory.viewOver_lend_eq_ok_iff.mp hmade).1
  | viewAliased l bytes owner policy flags =>
    cases h
    obtain ⟨m, hmade⟩ := made_of_keepView (item_of_given hitem)
    obtain ⟨hbuild, -⟩ := Memory.newView_lend_eq_ok_iff.mp hmade
    exact (View.build_eq_ok_iff.mp hbuild).2.1
  | viewThrough l reference owner policy flags =>
    cases h
    obtain ⟨m, hmade⟩ := made_of_keepView (item_of_given hitem)
    obtain ⟨hbuild, -⟩ := Memory.newView_lend_eq_ok_iff.mp hmade
    exact (View.build_eq_ok_iff.mp hbuild).2.1
  | _ => cases h

/-- After any run, every view suits its bytes. -/
theorem Run.suited (ops : List Op) (hv : (of ops).client.memory.view? i = some v) :
    v.Suited (of ops).client.pool := by
  induction ops using List.reverseRecOn generalizing v with
  | nil => cases hv
  | append_singleton ops op ih =>
    rw [of_concat] at hv ⊢
    have hcourse : (of ops).client.pool.Course _ ((of ops).extend op).client.pool :=
      ((of ops).client.steps_step op).moves.course
    have hviews : ((of ops).extend op).client.memory.view? i =
        (op.effect ((of ops).client.step op).1).apply i ((of ops).client.memory.view? i) :=
      ((of ops).client.effects_step op).views i
    refine View.Suited.course ?_ hcourse
    rw [hv] at hviews
    by_cases hi : (op.effect ((of ops).client.step op).1).item? = some i
    · cases heffect : op.effect ((of ops).client.step op).1 with
      | quiet =>
        rw [heffect] at hi
        cases hi
      | built j new =>
        rw [heffect] at hi hviews
        cases hi
        rw [ViewEffect.apply, if_pos rfl] at hviews
        cases hviews
        exact View.suited_of_checkSource (checkSource_of_built heffect)
      | changed j change =>
        rw [heffect] at hi hviews
        cases hi
        rw [ViewEffect.apply, if_pos rfl] at hviews
        obtain ⟨w, hw, rfl⟩ := Option.map_eq_some_iff.mp hviews.symm
        exact (ih hw).apply change
    · rw [ViewEffect.apply_of_ne hi] at hviews
      exact ih hviews.symm

end Client

end StridedViews
