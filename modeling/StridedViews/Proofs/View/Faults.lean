import StridedViews.Proofs.View.Build

/-!
Why accesses to a region fail. What goes wrong inside a region, on the way to an item or in its place,
is a matter of the layout, of bounds or of lengths, and no error of a buffer
(`Region.failsOnly_writeItem`).
-/

namespace StridedViews

variable {ε α β : Type} {P : ε → Prop}

/-- If something fails, then with an error of some sort. -/
def FailsOnly (P : ε → Prop) (x : Except ε α) : Prop := ∀ e, x = .error e → P e

theorem failsOnly_ok (a : α) : FailsOnly P (.ok a) := fun _ h => nomatch h

theorem failsOnly_error {e : ε} (h : P e) : FailsOnly P (.error e : Except ε α) := by
  intro e' heq
  cases heq
  exact h

theorem FailsOnly.bind {x : Except ε α} {f : α → Except ε β} (hx : FailsOnly P x)
    (hf : ∀ a, FailsOnly P (f a)) : FailsOnly P (x >>= f) := by
  cases x with
  | ok a => exact hf a
  | error e => exact failsOnly_error (hx e rfl)

theorem FailsOnly.mapError {ε' : Type} {f : ε' → ε} {x : Except ε' α}
    (hx : FailsOnly (fun e => P (f e)) x) : FailsOnly P (x.mapError f) := by
  cases x with
  | ok a => exact failsOnly_ok a
  | error e => exact failsOnly_error (hx e rfl)

namespace Resolver

variable {r : Resolver ε}

theorem failsOnly_lift (hlayout : ∀ e, P (r.ofLayout e)) (x : Except LayoutError α) :
    FailsOnly P (r.lift x) :=
  .mapError fun e _ => hlayout e

/-- A layout is followed to an item with no errors but its own and those of the pointers. -/
theorem failsOnly_offsetFrom (hlayout : ∀ e, P (r.ofLayout e))
    (hderef : ∀ offset, FailsOnly P (r.deref offset)) (dimension : Nat) (axes : List Axis)
    (index : List Nat) (offset : Int) : FailsOnly P (r.offsetFrom dimension axes index offset) := by
  induction axes generalizing dimension index offset with
  | nil => exact failsOnly_ok offset
  | cons a axes ih =>
    cases index with
    | nil => exact failsOnly_ok offset
    | cons i index =>
      rw [offsetFrom]
      split
      · refine FailsOnly.bind ?_ (ih _ _)
        refine FailsOnly.bind (failsOnly_lift hlayout _) fun place => ?_
        cases a.indirect? with
        | none => exact failsOnly_ok place
        | some suboffset => exact .bind (hderef place) fun _ => failsOnly_lift hlayout _
      · exact failsOnly_error (hlayout _)

theorem failsOnly_itemOffset (hlayout : ∀ e, P (r.ofLayout e))
    (hderef : ∀ offset, FailsOnly P (r.deref offset)) (l : Layout) (index : List Nat) :
    FailsOnly P (l.itemOffset r index) := by
  rw [Layout.itemOffset]
  split
  · exact failsOnly_error (hlayout _)
  · refine .bind (failsOnly_lift hlayout _) fun offset => ?_
    exact failsOnly_offsetFrom hlayout hderef 0 l.axes index offset

end Resolver

/-- An error that no buffer has raised. -/
def ViewError.IsLocal (e : ViewError) : Prop := ∀ fault, e ≠ .buffer fault

namespace Region

theorem failsOnly_span (region : List UInt8) (offset : Int) (length : Nat) :
    FailsOnly ViewError.IsLocal (span region offset length) := by
  rw [span]
  split
  · exact failsOnly_ok _
  · exact failsOnly_error (by rintro _ ⟨⟩)

theorem failsOnly_deref (region : List UInt8) (offset : Int) :
    FailsOnly ViewError.IsLocal (deref region offset) :=
  .bind (.bind (failsOnly_span region offset 8) fun _ => failsOnly_ok _) fun _ => failsOnly_ok _

theorem failsOnly_writeItem (l : Layout) (region : List UInt8) (index : List Nat)
    (item : List UInt8) : FailsOnly ViewError.IsLocal (writeItem l region index item) := by
  rw [writeItem]
  split
  · exact failsOnly_error (by rintro _ ⟨⟩)
  · refine .bind (.bind ?_ fun start => failsOnly_span region start l.itemSize) fun _ => failsOnly_ok _
    exact Resolver.failsOnly_itemOffset (by rintro _ _ ⟨⟩) (failsOnly_deref region) l index

end Region

/-- What keeps the bytes of a buffer from being read is that a buffer is released. -/
theorem failsOnly_bytesOf (bs : List Buffer) (id : BufferId) :
    FailsOnly (fun e => ∃ n, e = .released n) (bytesOf bs id) := by
  induction bs generalizing id with
  | nil => exact failsOnly_error ⟨id, rfl⟩
  | cons b older ih =>
    rw [bytesOf]
    split
    · split
      · exact failsOnly_error ⟨id, rfl⟩
      · exact failsOnly_ok _
      · exact failsOnly_ok _
      · exact (ih _).bind fun _ => failsOnly_ok _
    · exact ih id

namespace View

variable {p : Pool} {v : View} {index : List Nat} {item : List UInt8}

/-- An item is not written through a read-only layout. -/
theorem writeItem_of_readOnly (hro : v.layout.readOnly = true) :
    v.writeItem p index item = .error (if v.isReleased then .released else .readOnly) := by
  rw [writeItem, checkReleased]
  cases v.isReleased with
  | true => rfl
  | false =>
    rw [if_pos hro]
    rfl

/-- A view that asks for no more rights than its buffer gives never meets the check of the buffer. -/
theorem failsOnly_writeItem (hrights : ∀ id, v.buffer? = some id → ∃ b, p.get? id = some b ∧
      (b.readOnly = true → v.layout.readOnly = true)) :
    FailsOnly (fun e => ∀ id, e ≠ .buffer (.readOnly id)) (v.writeItem p index item) := by
  by_cases hro : v.layout.readOnly = true
  · rw [writeItem_of_readOnly hro]
    refine failsOnly_error fun id h => ?_
    split at h <;> cases h
  · refine .bind ?_ fun _ => ?_
    · rw [checkReleased]
      split
      · exact failsOnly_error (by rintro _ ⟨⟩)
      · exact failsOnly_ok ()
    · rw [if_neg hro]
      cases hsource : v.source with
      | aliased bytes => exact failsOnly_error (by rintro _ ⟨⟩)
      | managed buffer =>
        cases buffer with
        | none => exact failsOnly_error (by rintro _ ⟨⟩)
        | some id =>
          obtain ⟨b, hb, hrights⟩ := hrights id (by rw [buffer?, hsource])
          have hwritable : p.writableBytes id = p.bytes id := by
            rw [Pool.writableBytes, hb]
            exact if_neg (mt hrights hro)
          refine .bind (.mapError ?_) fun region => .bind ?_ fun _ => failsOnly_ok _
          · rw [hwritable]
            intro e he a h
            obtain ⟨n, rfl⟩ := failsOnly_bytesOf p.buffers id e he
            cases h
          · exact fun e he a => Region.failsOnly_writeItem v.layout region index item e he (.readOnly a)

end View

end StridedViews
