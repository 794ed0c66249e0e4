import Mathlib.Logic.Relation
import StridedViews.Proofs.Sharing.Run

/-!
What clients reach. A client reaches another by operations, one after the other, and what it reaches
from the end of a run is the end of a longer run. Here are also the single operations, and the rows of
them, that those who work through a client are made of.
-/

namespace StridedViews

namespace Client

variable {c c' : Client} {h : Handle} {i : ItemId} {id : BufferId} {k : BufferHold}

/-- An operation leads from a client to another. -/
def Leads (c c' : Client) : Prop := ∃ op, (c.step op).2 = c'

/-- Operations lead from a client to another, one after the other. -/
def Reaches : Client → Client → Prop := Relation.ReflTransGen Leads

/-- A client in order that has the registries of a host. -/
structure Ready (c : Client) : Prop where
  sound : c.Sound
  registries : 2 ≤ c.pool.registries.length

theorem reaches_of_step (op : Op) (h : (c.step op).2 = c') : c.Reaches c' := .single ⟨op, h⟩

theorem Ready.reaches (hc : c.Ready) (h : c.Reaches c') : c'.Ready := by
  induction h with
  | refl => exact hc
  | tail _ hlast ih =>
    obtain ⟨op, rfl⟩ := hlast
    exact ⟨ih.sound.step op,
      ih.registries.trans (Client.steps_step _ op).moves.length_registries_le⟩

/-- What is reached from the end of a run is the end of a longer one. -/
theorem Reaches.exists_later {ops : List Op} (h : (Run.of ops).client.Reaches c) :
    ∃ later, (Run.of (ops ++ later)).client = c := by
  induction h with
  | refl => exact ⟨[], by rw [List.append_nil]⟩
  | tail _ hlast ih =>
    obtain ⟨later, rfl⟩ := ih
    obtain ⟨op, rfl⟩ := hlast
    exact ⟨later ++ [op], by rw [← List.append_assoc, Run.of_concat, Run.extend]⟩

/-- A memory with two registries and nothing else is what a run ends with. -/
theorem exists_run_empty_two : ∃ ops, (Run.of ops).client = ⟨Memory.empty 2, 0, 0⟩ :=
  ⟨[.makeRegistry, .makeRegistry], rfl⟩

theorem ready_empty_two : Ready ⟨Memory.empty 2, 0, 0⟩ := by
  obtain ⟨ops, hops⟩ := exists_run_empty_two
  exact ⟨hops ▸ Run.sound ops, le_rfl⟩

/-! ### What is there -/

theorem mem_holds (hh : h ∈ c.handles) {g : Hold} (hg : g ∈ h.holds) : g ∈ c.holds :=
  Multiset.mem_add.mpr (.inl (Multiset.mem_bind.mpr ⟨h, hh, hg⟩))

theorem Sound.hasItem_of_mem (hc : c.Sound) (hm : .share i ∈ c.holds + holdsOf c.memory.items) :
    c.hasItem i = true :=
  hasItem_iff.mpr (hc.balanced.living_of_mem hm)

theorem Sound.hasBuffer_of_mem (hc : c.Sound)
    (hm : .buffer id k ∈ c.holds + holdsOf c.memory.items) : c.hasBuffer id = true :=
  hasBuffer_iff.mpr (hc.balanced.held_of_mem hm)

theorem Ready.hasItem (hc : c.Ready) (hh : h ∈ c.handles) (hm : .share i ∈ h.holds) :
    c.hasItem i = true :=
  hc.sound.hasItem_of_mem (Multiset.mem_add.mpr (.inl (mem_holds hh hm)))

theorem Ready.hasBuffer (hc : c.Ready) (hh : h ∈ c.handles) (hm : .buffer id k ∈ h.holds) :
    c.hasBuffer id = true :=
  hc.sound.hasBuffer_of_mem (Multiset.mem_add.mpr (.inl (mem_holds hh hm)))

/-- A host has a registry of its clients and one of its own. -/
theorem Ready.hasRegistry (hc : c.Ready) {r : Option RegistryId} (hr : ∀ n, r = some n → n < 2) :
    c.hasRegistry r = true := by
  cases r with
  | none => rfl
  | some n => exact decide_eq_true ((hr n rfl).trans_le hc.registries)

/-- What a living item holds is among the holds of all items. -/
theorem mem_holdsOf {x : Item} {g : Hold} (hi : c.hasItem i = true) (hget : c.memory.item? i = some x)
    (hg : g ∈ x.thing.holds) : g ∈ c.holds + holdsOf c.memory.items := by
  obtain ⟨y, hget', hy⟩ := hasItem_iff.mp hi
  cases hget.symm.trans hget'
  refine Multiset.mem_add.mpr (.inr (Multiset.mem_coe.mpr (List.mem_flatMap.mpr ⟨x, ?_, ?_⟩)))
  · exact Numbered.mem_iff_get?.mpr ⟨i, hget⟩
  · rwa [Item.holds, if_neg hy]

/-! ### Single operations -/

/-- A client makes a buffer over a store that it has just made. -/
theorem step_makeBuffer {store : Store} {r : Option RegistryId}
    (hr : (c.keepStore store).hasRegistry r = true) :
    ((c.keepStore store).step (.makeBuffer store r)).2 =
      (c.withPool (c.pool.create store r).2).keep (.buffer (c.pool.create store r).1) := by
  have hmem : store ∈ (c.keepStore store).stores := Multiset.mem_cons_self store c.stores
  rw [step, given, if_pos (by rw [hr, decide_eq_true hmem]; rfl)]
  exact congrArg (Client.mk _ _) (Multiset.erase_cons_head store c.stores)

/-- An operation on a view of an item that lives. -/
theorem step_onView {v : View} (op : Op) {act : View → Outcome × Client}
    (hi : c.hasItem i = true) (hview : c.memory.view? i = some v)
    (hop : c.step op = c.onView i act) : c.step op = act v := by
  rw [hop, onView, hview]
  exact if_pos hi

theorem step_releaseView {v : View} {made : Bool × Memory} (hi : c.hasItem i = true)
    (hview : c.memory.view? i = some v) (hmade : c.memory.release i v = .ok made) :
    (c.step (.releaseView i)).2 = c.withMemory made.2 := by
  rw [step_onView _ hi hview rfl, hmade]
  rfl

theorem step_viewAliased {l : Layout} {bytes : List UInt8} {owner : Option ItemId}
    {policy : ReleasePolicy} {flags : ViewFlags} (ho : c.hasOwner owner = true) :
    c.step (.viewAliased l bytes owner policy flags) =
      c.keepView ((c.memory.lend owner).viewAliased l bytes owner policy flags) := by
  rw [step, given, if_pos ho]

/-- Dropping the first handle of a buffer gives up that hold alone. -/
theorem reaches_dropBuffer (c : Client) (id : BufferId) :
    (c.keep (.buffer id)).Reaches (c.withMemory (c.memory.giveUp [.buffer id .handle])) := by
  refine reaches_of_step (.drop (.buffer id)) ?_
  have hmem : .buffer id ∈ (c.keep (.buffer id)).handles := Multiset.mem_cons_self _ c.handles
  rw [step, given, if_pos (decide_eq_true hmem)]
  exact congrArg (fun hands => Client.mk _ hands c.stores) (Multiset.erase_cons_head _ c.handles)

/-- A client makes a buffer of some bytes. -/
theorem Ready.reaches_makeBuffer (hc : c.Ready) (bytes : List UInt8) {r : Option RegistryId}
    (hr : ∀ n, r = some n → n < 2) :
    c.Reaches ((c.withPool (c.pool.create (.owned bytes) r).2).keep
      (.buffer (c.pool.create (.owned bytes) r).1)) := by
  have hstore : c.Reaches (c.keepStore (.owned bytes)) := reaches_of_step (.ownStore bytes) rfl
  exact hstore.trans (reaches_of_step (.makeBuffer (.owned bytes) r)
    (step_makeBuffer ((hc.reaches hstore).hasRegistry hr)))

/-! ### Owners that are handed over -/

/-- A client that hands over the share of an owner that it has a handle of does an operation, which lends
another share, and then drops the handle. -/
theorem reaches_handedOver {op : Op} {made : Except ViewError ItemId × Memory}
    (hstep : c.step op = c.keepView made) (hh : h ∈ c.handles)
    (hdrop : ∀ m : Memory, m.drop h = m.giveUp [.share i]) :
    c.Reaches ((c.lose h).keepView (made.1, made.2.giveUp [.share i])).2 := by
  refine (reaches_of_step op (congrArg Prod.snd hstep)).trans (reaches_of_step (.drop h) ?_)
  obtain ⟨e | j, m⟩ := made
  · have hkept : h ∈ (c.withMemory m).handles := hh
    rw [keepView, step, given, if_pos (decide_eq_true hkept)]
    exact congrArg (c.lose h).withMemory (hdrop m)
  · have hkept : h ∈ ((c.withMemory m).keep (.view j)).handles := Multiset.mem_cons_of_mem hh
    have hhandles : (Handle.view j ::ₘ c.handles).erase h = .view j ::ₘ c.handles.erase h :=
      Multiset.erase_cons_tail_of_mem hh
    rw [keepView, step, given, if_pos (decide_eq_true hkept)]
    exact congrArg₂ (fun m hands => Client.mk m hands c.stores) (hdrop m) hhandles

theorem reaches_viewOver_handedOver {l : Layout} {policy : ReleasePolicy} (hb : c.hasBuffer id = true)
    (hi : c.hasItem i = true) (hh : h ∈ c.handles)
    (hdrop : ∀ m : Memory, m.drop h = m.giveUp [.share i]) :
    c.Reaches ((c.lose h).keepView (c.memory.viewOver l id (some i) policy)).2 := by
  have ho : c.hasOwner (some i) = true := hi
  rw [Memory.viewOver_eq_giveUp_lend (living_of_hasOwner ho)]
  exact reaches_handedOver (step_viewOver hb ho) hh hdrop

theorem reaches_viewAliased_handedOver {l : Layout} {bytes : List UInt8} {policy : ReleasePolicy}
    {flags : ViewFlags} (hi : c.hasItem i = true) (hh : h ∈ c.handles)
    (hdrop : ∀ m : Memory, m.drop h = m.giveUp [.share i]) :
    c.Reaches ((c.lose h).keepView (c.memory.viewAliased l bytes (some i) policy flags)).2 := by
  have ho : c.hasOwner (some i) = true := hi
  rw [Memory.viewAliased_eq_giveUp_lend (living_of_hasOwner ho)]
  exact reaches_handedOver (step_viewAliased ho) hh hdrop

end Client

end StridedViews
