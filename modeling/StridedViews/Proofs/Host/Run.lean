import StridedViews.Proofs.Host.Guest
import StridedViews.Proofs.Sharing.Upkeep

/-!
Runs through a host: what a guest did from a new host on, with the log of how it ended. The configuration
of the host never changes, and the guest without its host is what some run of a client ends with
(`Guest.Run.exists_run`). So what holds after every run of a client holds here.
-/

namespace StridedViews

/-! ### Configurations stay -/

namespace Host

variable {σ : Type} {host host' : Host} {c : Config}

/-- A new host has two registries and nothing else. -/
theorem create_eq_ok (h : create c = .ok host) : host = { config := c, memory := Memory.empty 2 } := by
  obtain ⟨_, -, heq⟩ := bind_eq_ok_iff.mp h
  cases heq
  rfl

/-- A new host of the configuration that holds where nothing else is said. -/
def standard : Host := { config := {}, memory := Memory.empty 2 }

theorem config_makeView {l : Layout} {owner : Option ItemId}
    {make : Memory → Except ViewError ItemId × Memory} :
    (host.makeView l owner make).2.config = host.config := by
  rw [makeView]
  split
  · rfl
  · split <;> rfl

theorem config_viewOwned (host : Host) (bytes : List UInt8) (l : Layout) :
    (host.viewOwned bytes l).2.config = host.config := by
  rw [viewOwned_eq]
  change ((host.withBuffer bytes).makeView l none _).2.config = (host.withBuffer bytes).config
  exact config_makeView

theorem config_make (host : Host) (making : Making) : (host.make making).2.config = host.config := by
  cases making with
  | overBuffer l id owner => exact config_makeView
  | aliased l bytes owner => exact config_makeView
  | allocate formatText shape =>
    rw [make, allocate]
    split
    · exact host.config_viewOwned ..
    · rfl
  | adopt bytes parts =>
    rw [make, adopt]
    split
    · exact host.config_viewOwned ..
    · rfl
  | ofObject i o =>
    rw [make, viewOfObject]
    split
    · rfl
    · split
      · rfl
      · exact config_makeView

theorem config_read (raise : RaiseHandler σ) (host : Host) (v : View) (raiser : σ) :
    ((host.read raise v).run raiser).1.2.config = host.config := by
  obtain ⟨n, hread⟩ := host.exists_host_read raise v raiser
  rw [hread]

theorem config_release (raise : RaiseHandler σ) (host : Host) (i : ItemId) (v : View) (raiser : σ) :
    ((host.release raise i v).run raiser).1.2.config = host.config := by
  rw [release]
  rcases host.memory.release i v with e | ⟨_ | _, m⟩ <;> rfl

end Host

namespace Guest

variable {σ : Type}

theorem config_onView {g : Guest σ} {i : ItemId} {act : View → Outcome × Guest σ}
    (h : ∀ v, (act v).2.host.config = g.host.config) :
    (g.onView i act).2.host.config = g.host.config := by
  rcases g.onView_cases i act with heq | ⟨v, -, -, heq⟩
  · rw [heq]
  · rw [heq]
    exact h v

theorem config_step (raise : RaiseHandler σ) (g : Guest σ) (op : Op) :
    (g.step raise op).2.host.config = g.host.config := by
  cases op with
  | own op => rfl
  | raise kind text => rfl
  | make making =>
    rw [step]
    split
    · have hconfig := (g.host.lend making.owner).config_make making
      rw [make]
      split
      · exact hconfig
      · exact hconfig
    · rfl
  | read i => exact config_onView fun v => g.host.config_read raise v g.raiser
  | release i => exact config_onView fun v => g.host.config_release raise i v g.raiser

/-! ### Runs -/

structure Run (σ : Type) where
  guest : Guest σ
  /-- What was done and how it ended, in order. -/
  log : List (Op × Outcome)

namespace Run

/-- Nothing is done yet. -/
def start (host : Host) (raiser : σ) : Run σ := ⟨⟨host, 0, 0, raiser⟩, []⟩

/-- The run with one more operation. -/
def extend (raise : RaiseHandler σ) (run : Run σ) (op : Op) : Run σ :=
  let ended := run.guest.step raise op
  ⟨ended.2, run.log ++ [(op, ended.1)]⟩

/-- The run of some operations. -/
def of (raise : RaiseHandler σ) (host : Host) (raiser : σ) (ops : List Op) : Run σ :=
  ops.foldl (extend raise) (start host raiser)

/-- The run of some operations through a new host where nothing is configured, and errors are raised as
they are. -/
abbrev standard (ops : List Op) : Run Unit := of RaiseHandler.plain .standard () ops

variable {raise : RaiseHandler σ} {config : Config} {host : Host} {raiser : σ} {ops later : List Op}

theorem of_append :
    of raise host raiser (ops ++ later) = later.foldl (extend raise) (of raise host raiser ops) :=
  List.foldl_append

theorem of_concat (ops : List Op) (op : Op) :
    of raise host raiser (ops ++ [op]) = (of raise host raiser ops).extend raise op :=
  of_append

/-- What some operations bring about and every further one keeps stays so. -/
theorem append_induction {P : Run σ → Prop} (hextend : ∀ run op, P run → P (run.extend raise op))
    (hops : P (of raise host raiser ops)) (later : List Op) :
    P (of raise host raiser (ops ++ later)) := by
  rw [of_append]
  exact List.foldlRecOn later (extend raise) hops fun run h op _ => hextend run op h

/-- What the start has and every operation keeps, every run has. -/
theorem of_induction {P : Run σ → Prop} (hstart : P (start host raiser))
    (hextend : ∀ run op, P run → P (run.extend raise op)) (ops : List Op) :
    P (of raise host raiser ops) :=
  append_induction hextend (show P (of raise host raiser []) from hstart) ops

theorem config_eq (ops : List Op) : (of raise host raiser ops).guest.host.config = host.config :=
  of_induction (P := fun run => run.guest.host.config = host.config) rfl
    (fun run op h => (run.guest.config_step raise op).trans h) ops

/-- What is done later, the client does by operations. -/
theorem reaches_later (hready : (of raise host raiser ops).guest.client.Ready) (later : List Op) :
    (of raise host raiser ops).guest.client.Reaches
      (of raise host raiser (ops ++ later)).guest.client := by
  refine append_induction (P := fun run =>
    (of raise host raiser ops).guest.client.Reaches run.guest.client) ?_ .refl later
  intro run op h
  exact h.trans (reaches_step raise (hready.reaches h) op)

theorem client_start (hhost : Host.create config = .ok host) (raiser : σ) :
    (start host raiser).guest.client = ⟨Memory.empty 2, 0, 0⟩ := by
  rw [Host.create_eq_ok hhost]
  rfl

/-- A guest is at any time in order, with all registries of its host. -/
theorem ready (hhost : Host.create config = .ok host) (ops : List Op) :
    (of raise host raiser ops).guest.client.Ready := by
  have hstart : (of raise host raiser []).guest.client.Ready :=
    (client_start hhost raiser).symm ▸ Client.ready_empty_two
  exact hstart.reaches (reaches_later hstart ops)

/-- The registry of the host itself is there at any time. -/
theorem ownRegistry_lt (raise : RaiseHandler σ) (hhost : Host.create config = .ok host) (raiser : σ)
    (ops : List Op) :
    Host.ownRegistry < (of raise host raiser ops).guest.host.memory.pool.registries.length :=
  Nat.lt_of_succ_le (ready hhost ops).registries

/-- A guest without its host is what some run of a client ends with, and what comes later goes on from
there. -/
theorem exists_run (raise : RaiseHandler σ) (hhost : Host.create config = .ok host) (raiser : σ)
    (ops : List Op) : ∃ first : List Client.Op,
      (Client.Run.of first).client = (of raise host raiser ops).guest.client ∧
      ∀ later, ∃ second, (Client.Run.of (first ++ second)).client =
        (of raise host raiser (ops ++ later)).guest.client := by
  obtain ⟨new, hnew⟩ := Client.exists_run_empty_two
  rw [← client_start hhost raiser] at hnew
  have hstart : (of raise host raiser []).guest.client.Ready := ready hhost []
  have hreach : (Client.Run.of new).client.Reaches (of raise host raiser ops).guest.client :=
    hnew ▸ reaches_later hstart ops
  obtain ⟨rest, hrest⟩ := hreach.exists_later
  refine ⟨new ++ rest, hrest, fun later => ?_⟩
  have hlater : (Client.Run.of (new ++ rest)).client.Reaches
      (of raise host raiser (ops ++ later)).guest.client := hrest ▸ reaches_later (ready hhost ops) later
  exact hlater.exists_later

def memory (run : Run σ) : Memory := run.guest.host.memory

/-- What is done later keeps what items there are. -/
theorem keeps (raise : RaiseHandler σ) (hhost : Host.create config = .ok host) (raiser : σ)
    (ops later : List Op) :
    (of raise host raiser ops).memory.Keeps (of raise host raiser (ops ++ later)).memory := by
  obtain ⟨first, hfirst, hlater⟩ := exists_run raise hhost raiser ops
  obtain ⟨second, hsecond⟩ := hlater later
  have hkeeps := Client.Run.keeps first second
  rw [hfirst, hsecond] at hkeeps
  exact hkeeps

end Run

end Guest

end StridedViews
