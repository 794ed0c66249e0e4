import StridedViews.Proofs.Host.Clients
import StridedViews.Proofs.Session.Steps

/-!
What the steps of a session that go through its host do to its client. The client knows nothing of the
host's configuration and metrics. Where the host makes a buffer of its own, the client makes the buffer,
makes the view over it, and drops the handle of the buffer.
-/

namespace StridedViews

namespace Session

variable {σ : Type} {s : Session σ} {name : String} {i : ItemId} {v : View}

/-- What the client gets from the host, the session keeps under a name. -/
theorem reaches_keepView (s : Session σ) (name : String) (i : ItemId) (host : Host) :
    (s.client.receive (.ok i, host)).Reaches (({ s with host } : Session σ).keep name (.view i)).client :=
  reaches_keep ({ s with host } : Session σ) name (.view i)

theorem tracked_keepHosted {made : Except HostError ItemId × Host}
    (h : s.client.Ready → s.client.Reaches (s.client.receive made)) (name : String) :
    s.Tracked (s.keepHosted name made).2 := by
  intro hc
  obtain ⟨e | i, host⟩ := made
  · exact h hc
  · exact (h hc).trans (s.reaches_keepView name i host)

theorem tracked_hostView {make : Host → Layout → Option ItemId → Option (Except HostError ItemId × Host)}
    (h : ∀ l o made, make (s.host.lend o) l o = some made → s.client.Ready →
      s.client.hasOwner o = true → s.client.Reaches (s.client.receive made))
    (name : String) (layout : LayoutRecipe) (owner : Option String) :
    s.Tracked (s.hostView name layout owner make).2 := by
  rw [hostView]
  cases layout.build with
  | error e => exact .refl s
  | ok l =>
    refine tracked_withHandle fun o ho => tracked_withHandle fun made hmade => ?_
    exact tracked_keepHosted (fun hc => h l o made hmade hc (hasOwner_of_optional? hc ho)) name

theorem tracked_hostOver (s : Session σ) (name : String) (layout : LayoutRecipe) (buffer : String)
    (owner : Option String) :
    s.Tracked (s.hostView name layout owner fun host l owner =>
      (s.buffer? buffer).map fun id => host.viewOver l id owner).2 := by
  refine tracked_hostView (fun l o made hmake hc ho => ?_) name layout owner
  obtain ⟨id, hid, rfl⟩ := Option.map_eq_some_iff.mp hmake
  exact Client.reaches_viewOver rfl
    (hc.hasBuffer (mem_hands_of_buffer? hid) (List.mem_singleton_self _)) ho

theorem tracked_hostAliased (s : Session σ) (name : String) (layout : LayoutRecipe)
    (bytes : List UInt8) (owner : Option String) :
    s.Tracked (s.hostView name layout owner fun host l owner =>
      some (host.viewAliased l bytes owner)).2 := by
  refine tracked_hostView (fun l o made hmake _ ho => ?_) name layout owner
  obtain rfl := Option.some.inj hmake
  exact Client.reaches_viewAliased rfl ho

theorem tracked_hostOfObject {object : String} {o : HostObject}
    (ho : s.object? object = some (i, o)) (name : String) :
    s.Tracked (s.keepHosted name (s.host.viewOfObject i o)).2 :=
  tracked_keepHosted (fun hc => Client.reaches_viewOfObject rfl
    (hc.hasItem (of_object? ho).1 (List.mem_singleton_self _))) name

/-- A view over a buffer of the host's own, or its refusal. -/
theorem tracked_viewOwned (s : Session σ) (name : String) (bytes : List UInt8) (l : Layout) :
    s.Tracked (s.keepHosted name (s.host.viewOwned bytes l)).2 :=
  tracked_keepHosted (fun hc => hc.reaches_viewOwned rfl bytes l) name

theorem tracked_raising {ε α : Type} (s : Session σ) (x : StateM σ (Except ε α))
    (onError : ε → StepError) (onSuccess : α → Answer) :
    s.Tracked (s.raising x onError onSuccess).2 := by
  refine .of_client ?_
  rw [raising]
  cases hx : x.run s.raiser with
  | mk result raiser => cases result <;> rfl

/-- What an operation of the host leaves is its host, with whatever it answers. -/
theorem client_hosted {α : Type} (s : Session σ) (x : StateM σ (Except HostError α × Host))
    (onSuccess : α → Answer) :
    (s.hosted x onSuccess).2.client = (s.withMemory (x.run s.raiser).1.2.memory).client := by
  rw [hosted]
  rcases hx : x.run s.raiser with ⟨⟨result, host⟩, raiser⟩
  cases result <;> rfl

theorem tracked_hostRead (raise : RaiseHandler σ) (s : Session σ) (v : View) :
    s.Tracked (s.hosted (s.host.read raise v) .bytes).2 := by
  refine .of_client ((client_hosted ..).trans ?_)
  rw [Host.memory_read]
  rfl

theorem tracked_hostRelease (raise : RaiseHandler σ) (hv : s.view? name = some (i, v)) :
    s.Tracked (s.hosted (s.host.release raise i v) .flag).2 := by
  cases hmade : s.host.memory.release i v with
  | error e =>
    refine .of_client ((client_hosted ..).trans ?_)
    rw [Host.release, hmade]
    rfl
  | ok made =>
    refine tracked_of_step (.releaseView i) ?_
    intro hc
    rw [client_hosted, Client.step_releaseView (hasItem_of_view? hc hv) (of_view? hv).2 hmade, Host.release,
      hmade]
    obtain ⟨released, m⟩ := made
    cases released <;> rfl

end Session

end StridedViews
