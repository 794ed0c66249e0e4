import StridedViews.Proofs.Sharing.Lifecycle
import StridedViews.Proofs.Sharing.Reach

/-!
What items hold stays. Objects never change, and a view keeps its bytes and its owner until it is released
(`Client.Run.keeps`). So whatever hangs on a living item by a chain of items of which no view has been
released lives, too, as what it was, and the buffers of the views among them are attached
(`Client.Sound.upheld`).
-/

namespace StridedViews

namespace Memory

variable {m m' : Memory} {a b k : ItemId}

/-- What a later memory has of the items of an earlier one. -/
structure Keeps (m m' : Memory) : Prop where
  object : ∀ i o, m.object? i = some o → m'.object? i = some o
  view : ∀ i v, m.view? i = some v → ∃ v', m'.view? i = some v' ∧ v'.layout = v.layout ∧
    (v'.isReleased = false → v.isReleased = false ∧ v'.source = v.source ∧ v'.owner = v.owner)

/-- The thing of an item holds another item. -/
def Mentions (m : Memory) (a b : ItemId) : Prop := ∃ x, m.item? a = some x ∧ .share b ∈ x.thing.holds

/-- An item that mentioned another is no view that has been released since. -/
structure HoldsOn (m m' : Memory) (a b : ItemId) : Prop where
  mentions : m.Mentions a b
  unreleased : ∀ v, m'.view? a = some v → v.isReleased = false

/-- What hangs on an item by others that have not been released since. -/
def Chain (m m' : Memory) : ItemId → ItemId → Prop := Relation.ReflTransGen (m.HoldsOn m')

/-- An item that lives, and is as it was: if it is a view that has not been released, it has its bytes
and its owner, and its buffer is attached. -/
structure Upheld (m m' : Memory) (a : ItemId) : Prop where
  living : m'.Living a
  object : ∀ o, m.object? a = some o → m'.object? a = some o
  view : ∀ v, m.view? a = some v → ∃ v', m'.view? a = some v' ∧ v'.layout = v.layout ∧
    (v'.isReleased = false → v'.source = v.source ∧ v'.owner = v.owner ∧
      ∀ id, v.buffer? = some id → ∃ buffer, m'.pool.get? id = some buffer ∧ buffer.attached ≠ 0)

theorem mentions_of_owner {v : View} (hv : m.view? a = some v) (howner : v.owner = some b) :
    m.Mentions a b := by
  obtain ⟨n, hget⟩ := view?_eq_some_iff.mp hv
  refine ⟨_, hget, List.mem_append.mpr (.inr ?_)⟩
  rw [howner]
  exact List.mem_singleton_self _

/-- What holds on to another item mentions it still. -/
theorem HoldsOn.mentions_later (h : m.HoldsOn m' a b) (hkeeps : m.Keeps m') : m'.Mentions a b := by
  obtain ⟨⟨⟨thing, n⟩, hget, hmem⟩, hunreleased⟩ := h
  cases thing with
  | view v =>
    obtain ⟨v', hv', -, hsame⟩ := hkeeps.view a v (view?_eq_some_iff.mpr ⟨n, hget⟩)
    obtain ⟨-, hsource, howner⟩ := hsame (hunreleased v' hv')
    have hholds : v'.holds = v.holds := by
      rw [View.holds, View.holds, View.buffer?, View.buffer?, hsource, howner]
    obtain ⟨n', hget'⟩ := view?_eq_some_iff.mp hv'
    have hmem' : .share b ∈ v'.holds := hholds.symm ▸ hmem
    exact ⟨_, hget', hmem'⟩
  | object o =>
    obtain ⟨n', hget'⟩ := object?_eq_some_iff.mp
      (hkeeps.object a o (object?_eq_some_iff.mpr ⟨n, hget⟩))
    exact ⟨_, hget', hmem⟩
  | text s => cases hmem
  | integer i => cases hmem

end Memory

namespace Client

variable {c : Client} {m : Memory} {a b k : ItemId}

theorem Sound.living_of_mentions (hc : c.Sound) (ha : c.memory.Living a) (h : c.memory.Mentions a b) :
    c.memory.Living b := by
  obtain ⟨x, hget, hmem⟩ := h
  exact hc.balanced.living_of_mem (mem_holdsOf (hasItem_iff.mpr ha) hget hmem)

theorem Sound.living_of_chain (hc : c.Sound) (hkeeps : m.Keeps c.memory) (hk : c.memory.Living k)
    (h : m.Chain c.memory k a) : c.memory.Living a := by
  induction h with
  | refl => exact hk
  | tail _ hlast ih => exact hc.living_of_mentions ih (hlast.mentions_later hkeeps)

/-- A living view has a reference to its buffer. -/
theorem Sound.attached_of_view {v : View} {id : BufferId} (hc : c.Sound) (ha : c.memory.Living a)
    (hv : c.memory.view? a = some v) (hid : v.buffer? = some id) :
    ∃ buffer, c.pool.get? id = some buffer ∧ buffer.attached ≠ 0 := by
  obtain ⟨n, hget⟩ := Memory.view?_eq_some_iff.mp hv
  have hmem : .buffer id .reference ∈ v.holds := by
    refine List.mem_append.mpr (.inl ?_)
    rw [hid]
    exact List.mem_singleton_self _
  obtain ⟨buffer, hbuffer, hpos⟩ :=
    hc.balanced.count_pos_of_mem (mem_holdsOf (hasItem_iff.mpr ha) hget hmem)
  exact ⟨buffer, hbuffer, hpos.ne'⟩

/-- What hangs on a living item is upheld by it. -/
theorem Sound.upheld (hc : c.Sound) (hkeeps : m.Keeps c.memory) (hk : c.memory.Living k)
    (h : m.Chain c.memory k a) : m.Upheld c.memory a := by
  have ha := hc.living_of_chain hkeeps hk h
  refine ⟨ha, hkeeps.object a, fun v hv => ?_⟩
  obtain ⟨v', hv', hlayout, hsame⟩ := hkeeps.view a v hv
  refine ⟨v', hv', hlayout, fun hlive => ?_⟩
  obtain ⟨-, hsource, howner⟩ := hsame hlive
  refine ⟨hsource, howner, fun id hid => hc.attached_of_view ha hv' ?_⟩
  rw [View.buffer?, hsource]
  exact hid

/-! ### In runs -/

namespace Run

variable {ops : List Op} {i : ItemId}

theorem object?_later {o : HostObject} (ops later : List Op)
    (ho : (of ops).client.memory.object? i = some o) :
    (of (ops ++ later)).client.memory.object? i = some o :=
  append_induction (P := fun run => run.client.memory.object? i = some o)
    (fun run op h => (run.client.steps_step op).moves.keepsObject h) ho later

theorem built_later {first : View} (ops later : List Op) (h : (of ops).Built i first) :
    (of (ops ++ later)).Built i first := by
  obtain ⟨entry, hmem, heffect⟩ := h
  exact ⟨entry, (log_kept ops later).subset hmem, heffect⟩

/-- What is done later keeps what items there are. -/
theorem keeps (ops later : List Op) :
    (of ops).client.memory.Keeps (of (ops ++ later)).client.memory where
  object i o := object?_later ops later
  view i v hv := by
    obtain ⟨v', hv', hcont⟩ := continues ops later i v hv
    refine ⟨v', hv', hcont.layout, fun hlive => ?_⟩
    obtain ⟨hsource, hsame⟩ := hcont.source.resolve_left (by simp [hlive])
    obtain ⟨first, hbuilt, hhistory⟩ := (recorded ops i).present v hv
    obtain ⟨first', hbuilt', hhistory'⟩ := (recorded (ops ++ later) i).present v' hv'
    obtain rfl := (hbuilt' first).mp (built_later ops later ((hbuilt first).mpr rfl))
    refine ⟨hsame ▸ hlive, hsource, ?_⟩
    have hlives := hhistory.lives
    have hlives' := hhistory'.lives
    cases hfirst : first.owner with
    | none => rw [hlives.unowned hfirst, hlives'.unowned hfirst]
    | some j => rw [hlives.owner j hfirst, hlives'.owner j hfirst, hsame]

end Run

end Client

end StridedViews
