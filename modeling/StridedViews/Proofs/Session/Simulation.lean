import StridedViews.Proofs.Session.Hosting

/-!
Every session is a run of a client. A step of a session is a row of operations of its client, so what
holds after every run of a client holds of every session that started on a new host
(`Session.exists_run`).
-/

namespace StridedViews

namespace Session

variable {σ : Type} {s : Session σ}

/-- A question changes nothing, whatever the answer. -/
theorem tracked_query {ε α : Type} (s : Session σ) (onError : ε → StepError) (x : Except ε α)
    (f : α → Answer) : s.Tracked (s.answer onError do return (f (← x), s)).2 := by
  refine tracked_answer ?_
  intro r hr
  obtain ⟨a, -, heq⟩ := bind_eq_ok_iff.mp hr
  cases heq
  exact .refl s

/-- Every step of a session is a row of operations of its client. -/
theorem tracked_step (raise : RaiseHandler σ) (s : Session σ) (step : Step) :
    s.Tracked (s.step raise step).2 := by
  cases step with
  | makeStore r => exact s.tracked_makeStore r
  | makeBuffer name r registered => exact s.tracked_makeBuffer name r registered
  | releaseBuffer buffer =>
    exact tracked_withHandle fun id hid => tracked_releaseBuffer (mem_hands_of_buffer? hid)
  | readBuffer buffer =>
    exact tracked_withHandle fun id _ => s.tracked_query .buffer (s.pool.bytes id) .bytes
  | writeBuffer buffer start bytes =>
    exact tracked_withHandle fun id hid =>
      tracked_writeBuffer (mem_hands_of_buffer? hid) start bytes
  | pin name buffer =>
    exact tracked_withHandle fun id hid => tracked_pin (mem_hands_of_buffer? hid) name
  | attach name buffer =>
    exact tracked_withHandle fun id hid => tracked_attach (mem_hands_of_buffer? hid) name
  | detach reference => exact tracked_withHandle fun attached h => tracked_detach h
  | drop sort name => exact tracked_withHandle fun s' h => tracked_drop h
  | shareBuffer name buffer =>
    refine tracked_withHandle fun id hid => tracked_shareBuffer (fun hc => ?_) name
    exact hc.hasBuffer (mem_hands_of_buffer? hid) (List.mem_singleton_self _)
  | shareView name view =>
    refine tracked_withHandle ?_
    intro found hv
    exact tracked_shareItem (fun hc => hasItem_of_view? hc hv) (.inl rfl) name
  | makeOwner name r =>
    cases r with
    | text text => exact tracked_keep (.makeText text) fun _ => rfl
    | integer n => exact tracked_keep (.makeInteger n) fun _ => rfl
  | shareOwner name view => exact tracked_withHandle fun found hv => tracked_shareOwner hv name
  | makeView name layout owner policy r => exact s.tracked_makeView name layout owner policy r
  | read view =>
    exact tracked_withHandle fun found _ => s.tracked_query .view (found.2.read s.pool) .bytes
  | readItem view index =>
    exact tracked_withHandle fun found _ =>
      s.tracked_query .view (found.2.readItem s.pool index) .bytes
  | writeItem view index item =>
    exact tracked_withHandle fun found hv => tracked_writeItem hv index item
  | hash view => exact tracked_withHandle fun found hv => tracked_hash hv
  | setHash view hash =>
    exact tracked_withHandle fun found hv =>
      tracked_setView (.setHash found.1 hash) (·.withHash hash) hv rfl
  | beginExport view =>
    exact tracked_withHandle fun found hv => tracked_setView (.beginExport found.1) View.exported hv rfl
  | endExport view =>
    exact tracked_withHandle fun found hv => tracked_setView (.endExport found.1) View.unexported hv rfl
  | acquire name view => exact tracked_withHandle fun found hv => tracked_acquire hv name
  | releaseView view =>
    exact tracked_withHandle fun found hv =>
      tracked_releaseView (fun hc => hasItem_of_view? hc hv) (of_view? hv).2
  | check view =>
    exact tracked_withHandle fun found _ =>
      s.tracked_query .view found.2.checkReleased fun _ => .done
  | checkOrRaise view => exact tracked_withHandle fun found _ => tracked_raising s _ _ _
  | shareBufferOf name view =>
    exact tracked_withHandle fun found hv => tracked_shareBufferOf hv name
  | makeObject name r => exact s.tracked_makeObject name r
  | releaseObject object => exact tracked_withHandle fun found ho => tracked_releaseObject ho
  | hostAllocate name formatText shape =>
    change s.Tracked (s.keepHosted name (s.host.allocate formatText shape)).2
    rw [Host.allocate]
    cases Layout.rowMajor formatText shape s.host.config.defaultReadOnly with
    | error e => exact .refl s
    | ok l => exact s.tracked_viewOwned name _ l
  | hostAdopt name bytes parts =>
    change s.Tracked (s.keepHosted name (s.host.adopt bytes parts)).2
    rw [Host.adopt]
    cases Layout.ofParts parts with
    | error e => exact .refl s
    | ok l => exact s.tracked_viewOwned name bytes l
  | hostOver name layout buffer owner => exact s.tracked_hostOver name layout buffer owner
  | hostAliased name layout bytes owner => exact s.tracked_hostAliased name layout bytes owner
  | hostOfObject name object =>
    exact tracked_withHandle fun found ho => tracked_hostOfObject ho name
  | hostRead view => exact tracked_withHandle fun found _ => tracked_hostRead raise s _
  | hostRelease view => exact tracked_withHandle fun found hv => tracked_hostRelease raise hv
  | hostCheck view => exact tracked_withHandle fun found _ => tracked_raising s _ _ _
  | hostRaise kind text => exact tracked_raising s _ _ _

theorem tracked_run (raise : RaiseHandler σ) (s : Session σ) (steps : List Step) :
    s.Tracked (s.run raise steps) := by
  induction steps generalizing s with
  | nil => exact .refl s
  | cons step rest ih =>
    intro hc
    have hstep := s.tracked_step raise step hc
    exact hstep.trans (ih (s.step raise step).2 (hc.reaches hstep))

/-- A session on a new host has no handles, and nothing in its memory but two registries. -/
theorem client_create {config : Config} {raiser : σ} (h : Session.create config raiser = .ok s) :
    s.client = ⟨Memory.empty 2, 0, 0⟩ := by
  obtain ⟨host, hhost, heq⟩ := bind_eq_ok_iff.mp h
  obtain ⟨_, -, hhost⟩ := bind_eq_ok_iff.mp hhost
  cases hhost
  cases heq
  rfl

/-- Every session that starts on a new host is at any time what some run of a client ends with. -/
theorem exists_run (raise : RaiseHandler σ) {config : Config} {raiser : σ}
    (h : Session.create config raiser = .ok s) (steps : List Step) :
    ∃ ops, (Client.Run.of ops).client = (s.run raise steps).client := by
  obtain ⟨first, hfirst⟩ := Client.exists_run_empty_two
  rw [← client_create h] at hfirst
  have hready : s.client.Ready := client_create h ▸ Client.ready_empty_two
  have hreach := s.tracked_run raise steps hready
  rw [← hfirst] at hreach
  obtain ⟨later, hlater⟩ := hreach.exists_later
  exact ⟨first ++ later, hlater⟩

end Session

end StridedViews
