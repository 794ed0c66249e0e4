import StridedViews.Proofs.Host.Clients

/-!
Guests: those who work through a host. A guest has the host make, read and release views, and does with
the memory whatever else a client can do, past the host. That covers other hosts of the same memory, too,
as all that they do to it is done by operations of a client. So is each step of a guest
(`Guest.reaches_step`).
-/

namespace StridedViews

namespace Host

/-- The ways in which a host makes a view. -/
inductive Making where
  | overBuffer (l : Layout) (id : BufferId) (owner : Option ItemId)
  | aliased (l : Layout) (bytes : List UInt8) (owner : Option ItemId)
  | allocate (formatText : String) (shape : List Nat)
  | adopt (bytes : List UInt8) (parts : LayoutParts)
  | ofObject (i : ItemId) (o : HostObject)

/-- The owner that a host is handed. -/
def Making.owner : Making → Option ItemId
  | .overBuffer _ _ owner | .aliased _ _ owner => owner
  | .allocate .. | .adopt .. | .ofObject .. => none

/-- Makes a view, or fails; the host may be another one then, too. -/
def make (h : Host) : Making → Except HostError ItemId × Host
  | .overBuffer l id owner => h.viewOver l id owner
  | .aliased l bytes owner => h.viewAliased l bytes owner
  | .allocate formatText shape => h.allocate formatText shape
  | .adopt bytes parts => h.adopt bytes parts
  | .ofObject i o => h.viewOfObject i o

/-- Whether a client has what a view is to be made of. -/
def Making.there (c : Client) : Making → Bool
  | .overBuffer _ id owner => c.hasBuffer id && c.hasOwner owner
  | .aliased _ _ owner => c.hasOwner owner
  | .allocate .. | .adopt .. => true
  | .ofObject i o => c.hasItem i && c.memory.object? i = some o

end Host

/-- A client that works through a host, with the state of the host's raise handler. -/
structure Guest (σ : Type) where
  host : Host
  handles : Multiset Handle
  /-- Stores that no buffer has been made over. -/
  stores : Multiset Store
  raiser : σ

namespace Guest

/-- What can be done where there is a host. -/
inductive Op where
  /-- Anything that is done past the host, by the guest or by others. -/
  | own (op : Client.Op)
  /-- An error that something else raises through the handler of the host. -/
  | raise (kind : ErrorKind) (text : String)
  | make (making : Host.Making)
  | read (i : ItemId)
  | release (i : ItemId)

/-- How an operation ends. -/
inductive Outcome where
  /-- It works on something that is not there. -/
  | refused
  | own (o : Client.Outcome)
  | raised
  | failed (e : HostError)
  | view (i : ItemId)
  | bytes (bs : List UInt8)
  | flag (b : Bool)

variable {σ : Type}

/-- The guest without its host. -/
def client (g : Guest σ) : Client := ⟨g.host.memory, g.handles, g.stores⟩

/-- The guest when it has done something past the host. -/
def withClient (g : Guest σ) (c : Client) : Guest σ :=
  { g with host := { g.host with memory := c.memory }, handles := c.handles, stores := c.stores }

/-- Has the host make a view, and keeps it. The host is handed another share of the owner than that
which the guest knows it by. -/
def make (g : Guest σ) (making : Host.Making) : Outcome × Guest σ :=
  let made := (g.host.lend making.owner).make making
  match made.1 with
  | .ok i => (.view i, { g with host := made.2, handles := .view i ::ₘ g.handles })
  | .error e => (.failed e, { g with host := made.2 })

/-- Does something with a view that is there. -/
def onView (g : Guest σ) (i : ItemId) (act : View → Outcome × Guest σ) : Outcome × Guest σ :=
  match g.host.memory.view? i with
  | some v => if g.client.hasItem i then act v else (.refused, g)
  | none => (.refused, g)

/-- Runs an operation of the host that may raise. -/
def hosted {α : Type} (g : Guest σ) (x : StateM σ (Except HostError α × Host))
    (onSuccess : α → Outcome) : Outcome × Guest σ :=
  let ((result, host), raiser) := x.run g.raiser
  (match result with
    | .ok a => onSuccess a
    | .error e => .failed e, { g with host, raiser })

/-- Does an operation; errors are raised through `raise`. -/
def step (raise : RaiseHandler σ) (g : Guest σ) : Op → Outcome × Guest σ
  | .own op =>
    let (o, c) := g.client.step op
    (.own o, g.withClient c)
  | .raise kind text => (.raised, { g with raiser := ((raise kind text).run g.raiser).2 })
  | .make making => if making.there g.client then g.make making else (.refused, g)
  | .read i => g.onView i fun v => g.hosted (g.host.read raise v) .bytes
  | .release i => g.onView i fun v => g.hosted (g.host.release raise i v) .flag

variable {raise : RaiseHandler σ} {g : Guest σ} {i : ItemId} {v : View}

theorem client_make (g : Guest σ) (making : Host.Making) :
    (g.make making).2.client = g.client.receive ((g.host.lend making.owner).make making) := by
  rw [make, Client.receive]
  cases ((g.host.lend making.owner).make making).1 <;> rfl

/-- What an operation of the host leaves is its host, whatever it answers. -/
theorem client_hosted {α : Type} (g : Guest σ) (x : StateM σ (Except HostError α × Host))
    (onSuccess : α → Outcome) :
    (g.hosted x onSuccess).2.client = g.client.withMemory (x.run g.raiser).1.2.memory := rfl

/-- A view that is there, and what is done with it, or nothing. -/
theorem onView_cases (g : Guest σ) (i : ItemId) (act : View → Outcome × Guest σ) :
    g.onView i act = (.refused, g) ∨ ∃ v, g.host.memory.view? i = some v ∧
      g.client.hasItem i = true ∧ g.onView i act = act v := by
  rw [onView]
  cases hv : g.host.memory.view? i with
  | none => exact .inl rfl
  | some v =>
    by_cases hi : g.client.hasItem i = true
    · exact .inr ⟨v, rfl, hi, if_pos hi⟩
    · exact .inl (if_neg hi)

/-! ### Steps as operations of a client -/

theorem reaches_make (hc : g.client.Ready) {making : Host.Making}
    (hthere : making.there g.client = true) :
    g.client.Reaches (g.client.receive ((g.host.lend making.owner).make making)) := by
  cases making with
  | overBuffer l id owner =>
    obtain ⟨hb, ho⟩ := (Bool.and_eq_true _ _).mp hthere
    exact Client.reaches_viewOver rfl hb ho
  | aliased l bytes owner => exact Client.reaches_viewAliased rfl hthere
  | allocate formatText shape =>
    change g.client.Reaches (g.client.receive (g.host.allocate formatText shape))
    rw [Host.allocate]
    split
    · exact hc.reaches_viewOwned rfl ..
    · exact .refl
  | adopt bytes parts =>
    change g.client.Reaches (g.client.receive (g.host.adopt bytes parts))
    rw [Host.adopt]
    split
    · exact hc.reaches_viewOwned rfl ..
    · exact .refl
  | ofObject i o =>
    obtain ⟨hi, -⟩ := (Bool.and_eq_true _ _).mp hthere
    exact Client.reaches_viewOfObject rfl hi

theorem reaches_release (hv : g.host.memory.view? i = some v) (hi : g.client.hasItem i = true) :
    g.client.Reaches (g.hosted (g.host.release raise i v) .flag).2.client := by
  rw [client_hosted]
  cases hmade : g.host.memory.release i v with
  | error e =>
    rw [Host.release, hmade]
    exact .refl
  | ok made =>
    refine Client.reaches_of_step (.releaseView i) ?_
    rw [Client.step_releaseView hi hv hmade, Host.release, hmade]
    obtain ⟨released, m⟩ := made
    cases released <;> rfl

/-- What a guest does in a step, its client does by operations. -/
theorem reaches_step (raise : RaiseHandler σ) (hc : g.client.Ready) (op : Op) :
    g.client.Reaches (g.step raise op).2.client := by
  cases op with
  | own op => exact Client.reaches_of_step op rfl
  | raise kind text => exact .refl
  | make making =>
    rw [step]
    split
    · next hthere =>
      rw [client_make]
      exact reaches_make hc hthere
    · exact .refl
  | read i =>
    rw [step]
    rcases g.onView_cases i _ with heq | ⟨v, -, -, heq⟩
    · rw [heq]
      exact .refl
    · rw [heq, client_hosted, Host.memory_read]
      exact .refl
  | release i =>
    rw [step]
    rcases g.onView_cases i _ with heq | ⟨v, hv, hi, heq⟩
    · rw [heq]
      exact .refl
    · rw [heq]
      exact reaches_release hv hi

end Guest

end StridedViews
