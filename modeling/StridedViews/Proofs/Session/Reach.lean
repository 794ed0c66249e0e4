import StridedViews.Proofs.Sharing.Reach
import StridedViews.Session.Step

/-!
Sessions as clients. A session without the names of its handles is a client, and where the one goes in
a step the other gets by operations. Here are the ways there that the steps share: how handles are
looked up, kept and taken out of the table.
-/

namespace StridedViews

namespace Session

variable {σ : Type} {s s' : Session σ} {name : String} {sort : HandleSort} {h old : Handle}
  {i : ItemId} {id : BufferId}

/-- The handles of a session without their names. -/
def hands (s : Session σ) : Multiset Handle := (s.handles.map (·.handle) : List Handle)

/-- The client that a session is. -/
def client (s : Session σ) : Client := ⟨s.memory, s.hands, 0⟩

/-- Where a session goes, its client gets by operations. -/
def Tracked (s s' : Session σ) : Prop := s.client.Ready → s.client.Reaches s'.client

theorem Tracked.refl (s : Session σ) : s.Tracked s := fun _ => .refl

/-- The state of a host beside its memory, and that of the raise handler, are no concern of the
client. -/
theorem Tracked.of_client (h : s'.client = s.client) : s.Tracked s' := fun _ => h ▸ .refl

theorem tracked_of_step (op : Client.Op) (h : s.client.Ready → (s.client.step op).2 = s'.client) :
    s.Tracked s' :=
  fun hc => Client.reaches_of_step op (h hc)

theorem tracked_withHandle {α : Type} {found : Option α} {f : α → Answer × Session σ}
    (h : ∀ a, found = some a → s.Tracked (f a).2) : s.Tracked (s.withHandle found f).2 := by
  cases found with
  | none => exact .refl s
  | some a => exact h a rfl

theorem tracked_answer {ε : Type} {onError : ε → StepError} {result : Except ε (Answer × Session σ)}
    (h : ∀ r, result = .ok r → s.Tracked r.2) : s.Tracked (s.answer onError result).2 := by
  cases result with
  | error e => exact .refl s
  | ok r => exact h r rfl

/-! ### Handles and their names -/

theorem mem_hands (hh : s.handle? sort name = some h) : h ∈ s.hands := by
  rw [handle?, Option.map_eq_some_iff] at hh
  obtain ⟨e, he, rfl⟩ := hh
  exact Multiset.mem_coe.mpr (List.mem_map_of_mem (List.mem_of_find?_eq_some he))

/-- Taking the first entry of a sort out of a table takes its handle out. -/
theorem coe_map_eraseP {entries : List NamedHandle} {p : NamedHandle → Bool} {e : NamedHandle}
    (he : entries.find? p = some e) :
    (((entries.eraseP p).map (·.handle) : List Handle) : Multiset Handle) =
      ((entries.map (·.handle) : List Handle) : Multiset Handle).erase e.handle := by
  induction entries with
  | nil => cases he
  | cons x rest ih =>
    by_cases hx : p x = true
    · rw [List.find?_cons_of_pos (p := p) hx] at he
      cases he
      rw [List.eraseP_cons_of_pos hx, List.map_cons, ← Multiset.cons_coe, Multiset.erase_cons_head]
    · rw [List.find?_cons_of_neg (p := p) hx] at he
      have hmem : e.handle ∈ rest.map (·.handle) :=
        List.mem_map_of_mem (List.mem_of_find?_eq_some he)
      rw [List.eraseP_cons_of_neg hx, List.map_cons, List.map_cons, ← Multiset.cons_coe,
        ← Multiset.cons_coe, Multiset.erase_cons_tail_of_mem (Multiset.mem_coe.mpr hmem), ih he]

theorem hands_remove (hh : s.handle? sort name = some h) :
    (s.remove sort name).hands = s.hands.erase h := by
  rw [handle?, Option.map_eq_some_iff] at hh
  obtain ⟨e, he, rfl⟩ := hh
  exact coe_map_eraseP he

theorem remove_of_none (hh : s.handle? sort name = none) : s.remove sort name = s := by
  rw [handle?, Option.map_eq_none_iff, List.find?_eq_none] at hh
  rw [remove, List.eraseP_of_forall_not hh]

theorem hands_enter (s : Session σ) (name : String) (h : Handle) :
    (s.enter name h).hands = h ::ₘ (s.remove h.sort name).hands := rfl

/-- A handle that was made gets its name; the handle that had the name before is dropped. -/
theorem reaches_keep (s : Session σ) (name : String) (h : Handle) :
    (s.client.keep h).Reaches (s.keep name h).client := by
  rw [keep]
  split
  · next old hold =>
    refine Client.reaches_of_step (.drop old) ?_
    have hmem := mem_hands hold
    have hkept : old ∈ (s.client.keep h).handles := Multiset.mem_cons_of_mem hmem
    rw [Client.step, Client.given, if_pos (decide_eq_true hkept)]
    have hhands : (s.enter name h).hands = (h ::ₘ s.hands).erase old := by
      rw [hands_enter, hands_remove hold, Multiset.erase_cons_tail_of_mem hmem]
    exact congrArg (fun hands => (⟨s.memory.drop old, hands, 0⟩ : Client)) hhands.symm
  · next hnone =>
    have hclient : (s.enter name h).client = s.client.keep h := by
      rw [client, hands_enter, remove_of_none hnone]
      rfl
    rw [hclient]
    exact .refl

/-- An operation that makes a handle, and the name that it gets. -/
theorem tracked_keep (op : Client.Op)
    (hstep : s.client.Ready → (s.client.step op).2 = s'.client.keep h) : s.Tracked (s'.keep name h) :=
  fun hc => .trans (Client.reaches_of_step op (hstep hc)) (s'.reaches_keep name h)

theorem mem_hands_of_buffer? (hh : s.buffer? name = some id) : .buffer id ∈ s.hands := by
  rw [buffer?] at hh
  split at hh
  · next h =>
    cases hh
    exact mem_hands h
  · cases hh

theorem handle?_of_reference? {attached : Option BufferId} (hh : s.reference? name = some attached) :
    s.handle? .reference name = some (.reference attached) := by
  rw [reference?] at hh
  split at hh
  · next h =>
    cases hh
    exact h
  · cases hh

theorem of_view? {v : View} (hh : s.view? name = some (i, v)) :
    .view i ∈ s.hands ∧ s.memory.view? i = some v := by
  rw [view?] at hh
  split at hh
  · next j h =>
    obtain ⟨v', hv, heq⟩ := Option.map_eq_some_iff.mp hh
    cases heq
    exact ⟨mem_hands h, hv⟩
  · cases hh

theorem mem_hands_of_owner? (hh : s.owner? name = some i) : .owner i ∈ s.hands := by
  rw [owner?] at hh
  split at hh
  · next h =>
    cases hh
    exact mem_hands h
  · cases hh

theorem of_object? {o : HostObject} (hh : s.object? name = some (i, o)) :
    .object i ∈ s.hands ∧ s.memory.object? i = some o := by
  rw [object?] at hh
  split at hh
  · next j h =>
    obtain ⟨o', ho, heq⟩ := Option.map_eq_some_iff.mp hh
    cases heq
    exact ⟨mem_hands h, ho⟩
  · cases hh

end Session

end StridedViews
