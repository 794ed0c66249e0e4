import StridedViews.Sharing.Item

/-!
What an ending does. Brought to a buffer it either takes one hold off it or tears it down as well; a
teardown gives back what was lent and passes the end of an export pin on to an older buffer.
`endBuffer_next` says so of the buffer that the ending is brought to.
-/

namespace StridedViews

/-! ### The holds of stores -/

/-- A source that is a range of a buffer pins it. -/
def Source.holds : Source → List Hold
  | .owned _ | .foreign .. => []
  | .exported parent _ => [.buffer parent .pin]

/-- The holds of a store. -/
def Store.holds (s : Store) : List Hold := s.source.holds

/-- The holds of a buffer: those of its store, until that is torn down. -/
def Buffer.holds (b : Buffer) : List Hold :=
  match b.contents with
  | .live source => source.holds
  | .tornDown _ => []

/-- The labels that a source has to give back. -/
def Source.lent : Source → List String
  | .owned _ | .exported .. => []
  | .foreign label _ => [label]

/-- The labels that a store has to give back when it is torn down. -/
def Store.lent (s : Store) : List String := s.source.lent

/-- The labels that a buffer has to give back when it is torn down. -/
def Buffer.lent (b : Buffer) : List String :=
  match b.contents with
  | .live (.foreign label _) => [label]
  | _ => []

/-! ### Counts and contents -/

namespace Buffer

variable {b : Buffer}

theorem isHeld_iff : b.isHeld = true ↔ b.handles ≠ 0 ∨ b.attached ≠ 0 ∨ b.pins ≠ 0 := by
  simp [isHeld, or_assoc]

theorem isReleased_iff : b.isReleased = true ↔ ∃ cause, b.contents = .tornDown cause := by
  cases hc : b.contents <;> simp [isReleased, hc]

theorem isHeld_of_count_pos {h : BufferHold} (hpos : 0 < b.count h) : b.isHeld = true := by
  rw [isHeld_iff]
  cases h <;> simp only [count] at hpos <;> omega

@[simp] theorem contents_lose (h : BufferHold) : (b.lose h).contents = b.contents := by
  cases h <;> rfl

@[simp] theorem count_lose (h h' : BufferHold) :
    (b.lose h).count h' = if h' = h then b.count h' - 1 else b.count h' := by
  cases h <;> cases h' <;> simp [lose, count]

@[simp] theorem count_gain (h h' : BufferHold) :
    (b.gain h).count h' = if h' = h then b.count h' + 1 else b.count h' := by
  cases h <;> cases h' <;> simp [gain, count]

@[simp] theorem contents_after (e : Ending) : (b.after e).contents = b.contents := by
  cases e with
  | release => rfl
  | hold h => exact contents_lose h

theorem lent_of_live {source : Source} (h : b.contents = .live source) : b.lent = source.lent := by
  rw [lent, h]
  cases source <;> rfl

@[simp] theorem holds_after (e : Ending) : (b.after e).holds = b.holds := by
  rw [Buffer.holds, contents_after, Buffer.holds]

theorem everAttached_after (e : Ending) : (b.after e).everAttached = b.everAttached := by
  rcases e with _ | h
  · rfl
  · cases h <;> rfl

end Buffer

/-! ### Endings -/

theorem next_endBuffer (bs : List Buffer) (id : BufferId) (e : Ending) :
    Numbered.next (endBuffer bs id e).1 = Numbered.next bs := by
  rw [Numbered.next, length_endBuffer, Numbered.next]

/-- What the teardown of a buffer does to the older ones: what was lent is given back, and the store
of an exported buffer brings the end of its pin to them. -/
def Buffer.Passes (b : Buffer) (older : List Buffer) (torn : List Buffer × List StorageEvent) :
    Prop :=
  b.holds = [] ∧ torn = (older, b.lent.map (.gaveBack (Numbered.next older))) ∨
    b.lent = [] ∧ ∃ parent, b.holds = [.buffer parent .pin] ∧
      torn = endBuffer older parent (.hold .pin)

theorem Buffer.Passes.next_eq {b : Buffer} {older : List Buffer}
    {torn : List Buffer × List StorageEvent} (h : b.Passes older torn) :
    Numbered.next torn.1 = Numbered.next older := by
  rcases h with ⟨-, rfl⟩ | ⟨-, parent, -, rfl⟩
  · rfl
  · exact next_endBuffer ..

/-- An ending either leaves the buffer that it is brought to as it is but for the hold, or tears it
down. -/
theorem endBuffer_next (b : Buffer) (older : List Buffer) (e : Ending) :
    (b.due e = none ∨ b.isReleased = true) ∧
        (∃ found, (found = [] ∨ found = [.redundant b.registry]) ∧
          endBuffer (b :: older) (Numbered.next older) e =
            (b.after e :: older, b.underflow (Numbered.next older) e ++ found)) ∨
      ∃ cause torn, b.due e = some cause ∧ b.isReleased = false ∧ b.Passes older torn ∧
        endBuffer (b :: older) (Numbered.next older) e =
          ({ b.after e with contents := .tornDown cause } :: torn.1,
            b.underflow (Numbered.next older) e ++ torn.2 ++
              [.tornDown b.registry b.length cause]) := by
  rw [endBuffer, if_pos rfl]
  cases hd : b.due e with
  | none => exact .inl ⟨.inl rfl, [], .inl rfl, by rw [List.append_nil]⟩
  | some cause =>
    cases hc : b.contents with
    | tornDown c => exact .inl ⟨.inr (by rw [Buffer.isReleased, hc]), _, .inr rfl, rfl⟩
    | live source =>
      refine .inr ⟨cause, _, rfl, by rw [Buffer.isReleased, hc], ?_, rfl⟩
      rw [Buffer.Passes, Buffer.holds, Buffer.lent, hc]
      cases source with
      | owned bytes => exact .inl ⟨rfl, rfl⟩
      | foreign label bytes => exact .inl ⟨rfl, rfl⟩
      | exported parent start => exact .inr ⟨rfl, parent, rfl, rfl⟩

end StridedViews
