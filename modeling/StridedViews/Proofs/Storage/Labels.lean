import StridedViews.Proofs.Storage.Books
import StridedViews.Sharing.Memory

/-!
The labels of foreign stores. A label is owed by the store that it came with, then by the buffer made
over that store, and in the end it is given back. The labels given back and those that the buffers of a
pool still owe stay the same together through every ending, however far it is passed on
(`Pool.labels_bring`); only new buffers and stores torn down without one add theirs.
-/

namespace StridedViews

/-- A new buffer owes what its store owed. -/
theorem Buffer.lent_ofStore (s : Store) (r : Option RegistryId) :
    (Buffer.ofStore s r).lent = s.lent := by
  rw [lent_of_live rfl, Store.lent]

/-- The label that an event gives back. -/
def StorageEvent.labels : StorageEvent → List String
  | .gaveBack _ label => [label]
  | .tornDown .. | .redundant _ | .underflow .. => []

/-- What buffers owe they owe until they give it back. -/
theorem accountsFor_labels : AccountsFor StorageEvent.labels Buffer.lent where
  after b e := by rw [Buffer.lent, Buffer.contents_after, Buffer.lent]
  tornDown _ _ := rfl
  teardown b id cause _ := by
    rw [List.flatMap_map, StorageEvent.labels, List.append_nil]
    exact (List.flatMap_singleton' b.lent).symm
  redundant _ := rfl
  underflow _ _ := rfl

namespace Pool

/-- The labels that were given back, and those that buffers still owe. -/
def labels (p : Pool) : Multiset String :=
  (p.givenBack.map (·.label) : List String) + (p.buffers.flatMap Buffer.lent : List String)

theorem givenBack_record (p : Pool) (events : List StorageEvent) :
    (events.foldl record p).givenBack.map (·.label) =
      p.givenBack.map (·.label) ++ events.flatMap StorageEvent.labels := by
  induction events generalizing p with
  | nil => simp
  | cons event rest ih =>
    rw [List.foldl_cons, ih, List.flatMap_cons, ← List.append_assoc]
    cases event <;> simp [record, StorageEvent.labels]

/-- An ending loses no label and gives none back twice. -/
theorem labels_bring (p : Pool) (id : BufferId) (e : Ending) : (p.bring id e).labels = p.labels := by
  have howed : (p.buffers.flatMap Buffer.lent).Perm
      ((endBuffer p.buffers id e).2.flatMap StorageEvent.labels ++
        (endBuffer p.buffers id e).1.flatMap Buffer.lent) := accountsFor_labels.endBuffer
  rw [labels, buffers_bring, bring, givenBack_record, labels, Multiset.coe_eq_coe.mpr howed,
    ← Multiset.coe_add, ← Multiset.coe_add, add_assoc]

theorem labels_letGoAll (p : Pool) (holds : List Hold) :
    (holds.foldl Memory.letGo p).labels = p.labels := by
  induction holds generalizing p with
  | nil => rfl
  | cons h rest ih =>
    rw [List.foldl_cons, ih]
    cases h with
    | buffer id sort => exact p.labels_bring id (.hold sort)
    | share i => rfl

theorem labels_gain (p : Pool) (id : BufferId) (h : BufferHold) :
    labels { p with buffers := Numbered.update (·.gain h) p.buffers id } = p.labels := by
  rw [labels, Numbered.flatMap_update fun b _ => by cases h <;> rfl, labels]

theorem labels_hold {p p' : Pool} {id : BufferId} {h : BufferHold} (hp : p.hold id h = .ok p') :
    p'.labels = p.labels := by
  obtain ⟨b, -, -, rfl⟩ := hold_eq_ok_iff.mp hp
  exact p.labels_gain id h

theorem labels_overwrite (p : Pool) (id : BufferId) (new : List UInt8) :
    (p.overwrite id new).labels = p.labels := by
  rw [labels, overwrite, flatMap_writeBytes, labels]
  intro b source source' hlive hlent
  rw [Buffer.lent_of_live rfl, hlent, Buffer.lent_of_live hlive]

/-- A new buffer takes over the labels of its store. -/
theorem labels_create (p : Pool) (s : Store) (r : Option RegistryId) :
    (p.create s r).2.labels = p.labels + (s.lent : Multiset String) := by
  rw [labels, create, buffers_book, givenBack_book, List.flatMap_cons, Buffer.lent_ofStore,
    ← Multiset.coe_add, labels, add_assoc, add_comm (s.lent : Multiset String)]

/-- A store that no buffer was made over gives its labels back itself. -/
theorem labels_discard (p : Pool) (s : Store) :
    (p.discard s).labels = p.labels + (s.lent : Multiset String) := by
  rw [discard, Store.lent]
  cases s.source with
  | owned bytes => exact (add_zero _).symm
  | foreign label bytes =>
    rw [labels, List.map_append, ← Multiset.coe_add, add_right_comm]
    rfl
  | exported parent start =>
    exact (p.labels_bring parent (.hold .pin)).trans (add_zero _).symm

end Pool

end StridedViews
