import StridedViews.Proofs.Storage.Causes
import StridedViews.Proofs.Storage.Tallies

/-!
Redundant releases. What finds its buffer torn down already is either one more call for its release or
the end of its use by views, which comes late if a call tore the buffer down before. That happens to a
buffer once at most, so the books of a registry count the calls for a release of its buffers, each
by its answer, and beside them the buffers that are late (`Pool.CallsCounted`), and all that is done to
a pool keeps it so.
-/

namespace StridedViews

open Numbered (get? next)

/-- How often some events find a buffer of a registry torn down already. -/
def redundantIn (r : RegistryId) (events : List StorageEvent) : Nat :=
  events.countP fun
    | .redundant registry => registry = some r
    | _ => false

/-- Whether an ending of the buffer is a call for its release that is answered with `torn`. -/
def Buffer.answers (r : RegistryId) (torn : Bool) (e : Ending) (b : Buffer) : Bool :=
  e = .release ∧ b.registry = some r ∧ b.isReleased = !torn

instance (b : Buffer) : Decidable b.Idle := inferInstanceAs (Decidable (_ ∧ _ ∧ _))

/-- Whether the use of a buffer ended although a call had torn the buffer down before. -/
def Buffer.late (r : RegistryId) (b : Buffer) : Bool :=
  b.registry = some r ∧ b.contents = .tornDown .explicit ∧ b.Idle

variable {r : RegistryId} {torn : Bool} {cause : ReleaseCause} {b : Buffer} {bs older : List Buffer}
  {id n : BufferId} {e : Ending} {h : BufferHold}

theorem redundantIn_append (es es' : List StorageEvent) :
    redundantIn r (es ++ es') = redundantIn r es + redundantIn r es' :=
  List.countP_append

theorem redundantIn_underflow (n : BufferId) : redundantIn r (b.underflow n e) = 0 :=
  countP_underflow (fun _ _ => rfl) n

theorem redundantIn_lent (labels : List String) (n : BufferId) :
    redundantIn r (labels.map (.gaveBack n)) = 0 :=
  countP_lent (fun _ _ => rfl) labels n

/-! ### One buffer -/

namespace Buffer

theorem answers_hold : b.answers r torn (.hold h) = false := decide_eq_false fun hcall => nomatch hcall.1

/-- The end of a hold is not a call, whatever buffer it is brought to. -/
theorem any_answers_hold (o : Option Buffer) : o.any (answers r torn (.hold h)) = false := by
  cases o with
  | none => rfl
  | some b => exact answers_hold

theorem answers_of_live (hl : b.isReleased = false) : b.answers r false e = false :=
  decide_eq_false fun hcall => Bool.false_ne_true (hl.symm.trans hcall.2.2)

theorem late_of_contents (hc : b.contents ≠ .tornDown .explicit) : b.late r = false :=
  decide_eq_false fun hlate => hc hlate.2.1

theorem late_of_not_idle (hidle : ¬ b.Idle) : b.late r = false :=
  decide_eq_false fun hlate => hidle hlate.2.2

theorem late_of_live (hl : b.isReleased = false) : b.late r = false :=
  late_of_contents fun hc => Bool.false_ne_true (hl.symm.trans (isReleased_iff.mpr ⟨_, hc⟩))

theorem registry_lose (h : BufferHold) : (b.lose h).registry = b.registry := by
  cases h <;> rfl

theorem not_idle_of_endsUse (huse : b.endsUse h = true) : ¬ b.Idle := by
  rintro ⟨-, hattached, hpins⟩
  cases h <;> simp [endsUse, hattached, hpins] at huse

theorem idle_lose_of_endsUse (hv : b.Viewed) (huse : b.endsUse h = true) : (b.lose h).Idle := by
  have hd : b.due (.hold h) = some .deferred := if_pos huse
  exact fate_tearDown hv hd

/-- An ending of a torn down buffer that is not the end of its use does not make it idle. -/
theorem idle_lose_iff (huse : b.endsUse h = false) : (b.lose h).Idle ↔ b.Idle := by
  cases h <;> simp only [endsUse, lose, Idle] at * <;> grind

/-- Only a call tears a buffer down before its use ends. -/
theorem Prompt.explicit_of_endsUse (hp : b.Prompt) (hr : b.isReleased = true)
    (huse : b.endsUse h = true) : b.contents = .tornDown .explicit := by
  obtain ⟨cause, hc⟩ := isReleased_iff.mp hr
  cases cause with
  | explicit => exact hc
  | deferred => exact absurd (hp.deferred hc) (not_idle_of_endsUse huse)
  | dropped =>
    have hever : (b.lose h).everAttached = false :=
      (everAttached_after (.hold h)).trans (hp.dropped hc)
    exact absurd (hever.symm.trans (idle_lose_of_endsUse hp.viewed huse).1) Bool.false_ne_true

/-- A buffer that an ending finds torn down is late from then on, unless the ending is a call. -/
theorem Prompt.redundantIn_notes (hp : b.Prompt) (hkept : b.due e = none ∨ b.isReleased = true)
    (n : BufferId) :
    redundantIn r (b.notes n (b.due e)) + (if b.late r then 1 else 0) =
      (if (b.after e).late r then 1 else 0) + if b.answers r false e then 1 else 0 := by
  cases e with
  | release =>
    have hr := hkept.resolve_left (Option.some_ne_none _)
    have hnotes : redundantIn r (b.notes n (b.due .release)) =
        if b.answers r false .release then 1 else 0 := by
      change redundantIn r (b.notes n (some .explicit)) = _
      rw [notes, if_pos hr]
      simp [redundantIn, answers, hr]
    rw [hnotes]
    exact Nat.add_comm ..
  | hold h =>
    rw [answers_hold]
    cases huse : b.endsUse h with
    | true =>
      -- the use of the buffer ends late
      have hd : b.due (.hold h) = some .deferred := if_pos huse
      have hr := hkept.resolve_left fun hnone => Option.some_ne_none _ (hd.symm.trans hnone)
      have hc := hp.explicit_of_endsUse hr huse
      have hlate : (b.lose h).late r = decide (b.registry = some r) := by
        simp [late, hc, registry_lose, idle_lose_of_endsUse hp.viewed huse]
      rw [late_of_not_idle (not_idle_of_endsUse huse), hd, after, hlate]
      simp [notes, hr, redundantIn]
    | false =>
      have hd : b.due (.hold h) = none := by
        refine hkept.elim id fun hr => ?_
        rw [Buffer.due, huse, hr]
        simp
      have hlate : (b.lose h).late r = b.late r := by
        simp [late, registry_lose, idle_lose_iff huse]
      rw [hd, after, hlate]
      exact Nat.add_comm ..

/-- A buffer that is torn down is not late at that moment. -/
theorem Prompt.late_tearDown (hp : b.Prompt) (hl : b.isReleased = false) (hd : b.due e = some cause) :
    late r { b.after e with contents := .tornDown cause } = false := by
  by_cases hcause : cause = .explicit
  · obtain rfl := (hp.due hl hd).1.mp hcause
    exact late_of_not_idle (hp.live hl)
  · exact late_of_contents fun hc => hcause (Contents.tornDown.inj hc)

/-- A live buffer is torn down for an explicit cause just if the ending is a call. -/
theorem fallsIn_tornDown (hl : b.isReleased = false) (hd : b.due e = some cause) :
    fallsIn r .explicit [.tornDown b.registry b.length cause] =
      if b.answers r true e then 1 else 0 := by
  cases e with
  | release =>
    cases hd
    simp [fallsIn, answers, hl]
  | hold h =>
    have hcause : cause ≠ .explicit := by
      rintro rfl
      exact b.due_hold_ne_explicit h hd
    simp [fallsIn, answers, hcause]

end Buffer

/-! ### A list of buffers -/

/-- What an ending that tears nothing down notes. -/
theorem endBuffer_kept (hkept : b.due e = none ∨ b.isReleased = true) :
    (endBuffer (b :: older) (next older) e).2 =
      b.underflow (next older) e ++ b.notes (next older) (b.due e) := by
  rw [endBuffer, if_pos rfl]
  cases hd : b.due e with
  | none => exact (List.append_nil _).symm
  | some cause =>
    have hr := hkept.resolve_left fun hnone => Option.some_ne_none _ (hd.symm.trans hnone)
    obtain ⟨c, hc⟩ := Buffer.isReleased_iff.mp hr
    rw [Buffer.notes, if_pos hr, hc]

/-- Only a call that a live buffer answers tears it down for an explicit cause. -/
theorem fallsIn_explicit_endBuffer (r : RegistryId) (bs : List Buffer) (id : BufferId) (e : Ending) :
    fallsIn r .explicit (endBuffer bs id e).2 =
      if (get? bs id).any (Buffer.answers r true e) then 1 else 0 := by
  induction bs generalizing id e with
  | nil => rfl
  | cons x older ih =>
    by_cases hid : id = next older
    · subst hid
      rw [Numbered.get?_cons_next, Option.any_some]
      rcases endBuffer_next x older e with ⟨hkept, found, hfound, heq⟩ |
        ⟨cause, passed, hd, hlive, hpassed, heq⟩
      · have hnone : fallsIn r .explicit found = 0 := by rcases hfound with rfl | rfl <;> rfl
        have hno : x.answers r true e = false := by
          refine decide_eq_false fun hcall => ?_
          obtain ⟨rfl, -, hl⟩ := hcall
          rcases hkept with hd | hr
          · cases hd
          · cases hr.symm.trans hl
        rw [heq, fallsIn_append, fallsIn_underflow, hnone, hno]
        rfl
      · have hrest : fallsIn r .explicit passed.2 = 0 := by
          rcases hpassed with ⟨-, rfl⟩ | ⟨-, parent, -, rfl⟩
          · exact fallsIn_lent ..
          · rw [ih, Buffer.any_answers_hold]
            rfl
        rw [heq, fallsIn_append, fallsIn_append, fallsIn_underflow, hrest,
          Buffer.fallsIn_tornDown hlive hd, Nat.zero_add]
    · rw [endBuffer, if_neg hid, Numbered.get?, if_neg hid]
      exact ih id e

/-- An ending that finds its buffer torn down is a call, or it makes the buffer late. -/
theorem redundantIn_endBuffer (hp : ∀ b ∈ bs, b.Prompt) (r : RegistryId) (id : BufferId) (e : Ending) :
    redundantIn r (endBuffer bs id e).2 + bs.countP (Buffer.late r) =
      (endBuffer bs id e).1.countP (Buffer.late r) +
        if (get? bs id).any (Buffer.answers r false e) then 1 else 0 := by
  induction bs generalizing id e with
  | nil => rfl
  | cons x older ih =>
    have hx := hp x List.mem_cons_self
    have ih := ih fun b hb => hp b (List.mem_cons_of_mem _ hb)
    by_cases hid : id = next older
    · subst hid
      rw [Numbered.get?_cons_next, Option.any_some]
      rcases endBuffer_next x older e with ⟨hkept, found, -, heq⟩ |
        ⟨cause, passed, hd, hlive, hpassed, heq⟩
      · have hone := hx.redundantIn_notes (r := r) hkept (next older)
        rw [endBuffer_kept hkept, heq, redundantIn_append, redundantIn_underflow, List.countP_cons,
          List.countP_cons]
        omega
      · have hrest : redundantIn r passed.2 + older.countP (Buffer.late r) =
            passed.1.countP (Buffer.late r) := by
          rcases hpassed with ⟨-, rfl⟩ | ⟨-, parent, -, rfl⟩
          · rw [redundantIn_lent, Nat.zero_add]
          · rw [ih, Buffer.any_answers_hold]
            rfl
        have hnone : redundantIn r [.tornDown x.registry x.length cause] = 0 := rfl
        rw [heq, redundantIn_append, redundantIn_append, redundantIn_underflow, hnone,
          List.countP_cons, List.countP_cons, hx.late_tearDown hlive hd, Buffer.answers_of_live hlive,
          Buffer.late_of_live hlive]
        simp only [Bool.false_eq_true, if_false]
        omega
    · have heq : endBuffer (x :: older) id e =
          (x :: (endBuffer older id e).1, (endBuffer older id e).2) := by
        rw [endBuffer, if_neg hid]
      rw [heq, Numbered.get?, if_neg hid, List.countP_cons, List.countP_cons, ← Nat.add_assoc, ih,
        Nat.add_right_comm]

namespace Pool

variable {p p' : Pool} {d : Option Deed} {calls : RegistryId → Bool → Nat}

/-- How many calls for the release of a buffer of a registry there are in a deed that are answered with
`torn`. -/
def callsIn (p : Pool) (d : Option Deed) (r : RegistryId) (torn : Bool) : Nat :=
  match d with
  | some (.released id) => if (p.get? id).any (Buffer.answers r torn .release) then 1 else 0
  | _ => 0

theorem callsIn_of_ne (h : ∀ id, d ≠ some (.released id)) : p.callsIn d r torn = 0 := by
  unfold callsIn
  split
  · exact absurd rfl (h _)
  · rfl

/-- The books of every registry count the calls for a release of its buffers by their answers: those
that tore a buffer down as explicit releases, and the others as redundant ones together with the
buffers that are late. -/
def CallsCounted (p : Pool) (calls : RegistryId → Bool → Nat) : Prop :=
  ∀ r, (p.registry r).stats.explicitReleases = calls r true ∧
    (p.registry r).stats.redundantReleases = calls r false + p.buffers.countP (Buffer.late r)

theorem redundantReleases_record (p : Pool) (event : StorageEvent) (hr : r < p.registries.length) :
    ((p.record event).registry r).stats.redundantReleases =
      (p.registry r).stats.redundantReleases + redundantIn r [event] := by
  cases event with
  | gaveBack id label => rfl
  | underflow id h => rfl
  | tornDown r' length c =>
    rw [record, registry_book]
    split
    · cases c <;> rfl
    · rfl
  | redundant r' =>
    rw [record, registry_book]
    by_cases hr' : r' = some r
    · rw [if_pos ⟨hr', hr⟩]
      simp [redundantIn, hr', Registry.recordRedundant]
    · rw [if_neg fun h => hr' h.1]
      simp [redundantIn, hr']

theorem Booked.countP_late (hb : p.Booked) (hle : p.registries.length ≤ r) :
    p.buffers.countP (Buffer.late r) = 0 := by
  rw [List.countP_eq_zero]
  exact fun b hmem hlate => hb.registry_ne hle b hmem (of_decide_eq_true hlate).1

theorem Booked.any_answers (hb : p.Booked) (hle : p.registries.length ≤ r) (id : BufferId) (e : Ending) :
    (p.get? id).any (Buffer.answers r torn e) = false := by
  cases hget : p.get? id with
  | none => rfl
  | some b =>
    have hmem := Numbered.mem_iff_get?.mpr ⟨id, hget⟩
    exact decide_eq_false fun hcall => hb.registry_ne hle b hmem hcall.2.1

/-- An ending is counted if it is a call. -/
theorem CallsCounted.bring (hb : p.Booked) (hp : p.Prompt) (hc : p.CallsCounted calls)
    (id : BufferId) (e : Ending) :
    (p.bring id e).CallsCounted fun r torn =>
      calls r torn + if (p.get? id).any (Buffer.answers r torn e) then 1 else 0 := by
  intro r
  obtain ⟨hexplicit, hredundant⟩ := hc r
  dsimp only
  rcases Nat.lt_or_ge r p.registries.length with hlt | hle
  · set p₀ : Pool := { p with buffers := (endBuffer p.buffers id e).1 } with hp₀
    set events := (endBuffer p.buffers id e).2 with hevents
    have hprompt : ∀ b ∈ p.buffers, b.Prompt := fun b hmem =>
      (Numbered.mem_iff_get?.mp hmem).elim fun n hn => hp n b hn
    have hexplicit' : ((p.bring id e).registry r).stats.explicitReleases =
        (p.registry r).stats.explicitReleases + fallsIn r .explicit events :=
      entry_foldl_record (f := fun registry => registry.stats.releases .explicit)
        (fun p event => p.releases_record event) p₀ events hlt
    have hredundant' : ((p.bring id e).registry r).stats.redundantReleases =
        (p.registry r).stats.redundantReleases + redundantIn r events :=
      entry_foldl_record (f := fun registry => registry.stats.redundantReleases)
        redundantReleases_record p₀ events hlt
    constructor
    · rw [hexplicit', hexplicit, hevents, fallsIn_explicit_endBuffer, ← get?]
    · have hfound := redundantIn_endBuffer hprompt r id e
      rw [← hevents, ← get?] at hfound
      rw [hredundant', hredundant, buffers_bring]
      omega
  · have hbooked := (p.keepsBooks_bring id e).booked hb
    have hle' : (p.bring id e).registries.length ≤ r := (p.length_registries_bring id e).trans_le hle
    rw [registry_of_le hle] at hexplicit hredundant
    rw [hb.countP_late hle] at hredundant
    rw [registry_of_le hle', hbooked.countP_late hle', hb.any_answers hle, hb.any_answers hle]
    exact ⟨hexplicit, hredundant⟩

/-- The end of holds is no call. -/
theorem CallsCounted.giveUp (hb : p.Booked) (hp : p.Prompt) (hc : p.CallsCounted calls)
    (holds : List (BufferId × BufferHold)) :
    (p.bringAll (holds.map fun h => (h.1, .hold h.2))).CallsCounted calls := by
  induction holds generalizing p with
  | nil => exact hc
  | cons hold rest ih =>
    refine ih ((p.keepsBooks_bring _ _).booked hb) (hp.bringAll [(hold.1, .hold hold.2)]) ?_
    have hone := hc.bring hb hp hold.1 (.hold hold.2)
    simp only [Buffer.any_answers_hold, Bool.false_eq_true, if_false, Nat.add_zero] at hone
    exact hone

theorem CallsCounted.of_countP (hc : p.CallsCounted calls) (hr : ∀ r, p'.registry r = p.registry r)
    (hcount : ∀ r, p'.buffers.countP (Buffer.late r) = p.buffers.countP (Buffer.late r)) :
    p'.CallsCounted calls := by
  intro r
  rw [hr, hcount]
  exact hc r

/-- A hold on a live buffer, or a handle on any, makes no buffer late and none timely. -/
theorem CallsCounted.gain (hc : p.CallsCounted calls)
    (hl : h = .handle ∨ ∃ b, p.get? id = some b ∧ b.isReleased = false) :
    CallsCounted { p with buffers := Numbered.update (·.gain h) p.buffers id } calls := by
  refine hc.of_countP (fun _ => rfl) fun r => ?_
  rw [countP_eq_length_flatMap, countP_eq_length_flatMap]
  refine congrArg _ (Numbered.flatMap_update fun b hb => ?_)
  have hlate : (b.gain h).late r = b.late r := by
    rcases hl with rfl | ⟨b₁, hb₁, hlive⟩
    · rfl
    · cases hb.symm.trans hb₁
      have hlive' : (b.gain h).isReleased = false := by
        rw [← hlive]
        cases h <;> rfl
      rw [Buffer.late_of_live hlive, Buffer.late_of_live hlive']
  rw [hlate]

/-- Whatever is done to a pool, the books count the calls that it consists of. -/
theorem CallsCounted.change (hb : p.Booked) (hp : p.Prompt) (hc : p.CallsCounted calls)
    (hchange : p.Change d p') : p'.CallsCounted fun r torn => calls r torn + p.callsIn d r torn := by
  cases hchange with
  | quiet | giveBack => exact hc
  | addRegistry => exact hc.of_countP p.registry_makeRegistry fun _ => rfl
  | @hold id h _ hhold =>
    obtain ⟨b, hget, hlive, rfl⟩ := hold_eq_ok_iff.mp hhold
    have hnone : ∀ r torn, p.callsIn (h.deed id) r torn = 0 :=
      fun _ _ => callsIn_of_ne fun _ => by cases h <;> exact fun hd => nomatch hd
    simp only [hnone, Nat.add_zero]
    exact hc.gain (.inr ⟨b, hget, hlive⟩)
  | share => exact hc.gain (h := .handle) (.inl rfl)
  | giveUp holds => exact hc.giveUp hb hp holds
  | @release id => exact hc.bring hb hp id .release
  | overwrite =>
    exact hc.of_countP (fun _ => rfl) fun _ => countP_writeBytes (fun _ => Buffer.late_of_live) ..
  | @create s r' hr =>
    intro r
    rw [countP_create fun _ => Buffer.late_of_live, registry_create hr]
    split
    · exact hc r
    · exact hc r

end Pool

end StridedViews
