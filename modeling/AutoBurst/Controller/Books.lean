/-
The cost ledger of one kind of instances together with the pool of that kind.

An instance leaves the pool when its entry is opened and comes back when it is
closed. So its times are written in order and its last entry is open exactly
while it is out of the pool, as long as the clock does not go back.
-/

import AutoBurst.Controller.Instance
import Mathlib.Logic.Relation

namespace AutoBurst.Controller

/-! ### The entries of one instance -/

def entryTimes (entries : List CostEntry) : List (Option Int) :=
  entries.flatMap fun entry => [entry.start, entry.stop]

/-- The listed times do not decrease and are past, and `ending` follows them. -/
def TimedUpTo (clock : Int) (ending : List (Option Int)) (entries : List CostEntry) : Prop :=
  ∃ times : List Int, entryTimes entries = times.map some ++ ending ∧
    times.Pairwise (· ≤ ·) ∧ ∀ time ∈ times, time ≤ clock

def Closed (clock : Int) (entries : List CostEntry) : Prop := TimedUpTo clock [] entries

def Open (clock : Int) (entries : List CostEntry) : Prop := TimedUpTo clock [none] entries

section Entries

variable {clock : Int} {ending : List (Option Int)} {entries : List CostEntry}

theorem entryTimes_append (first second : List CostEntry) :
    entryTimes (first ++ second) = entryTimes first ++ entryTimes second :=
  List.flatMap_append

theorem TimedUpTo.later (timed : TimedUpTo clock ending entries) {now : Int}
    (le : clock ≤ now) : TimedUpTo now ending entries := by
  obtain ⟨times, listed, ordered, past⟩ := timed
  exact ⟨times, listed, ordered, fun time member => (past time member).trans le⟩

private theorem pairwise_snoc {times : List Int} (ordered : times.Pairwise (· ≤ ·))
    (past : ∀ time ∈ times, time ≤ clock) :
    (times ++ [clock]).Pairwise (· ≤ ·) ∧ ∀ time ∈ times ++ [clock], time ≤ clock := by
  constructor
  · rw [List.pairwise_append]
    refine ⟨ordered, List.pairwise_singleton _ _, ?_⟩
    intro time member last isLast
    rw [List.mem_singleton.mp isLast]
    exact past time member
  · intro time member
    rcases List.mem_append.mp member with earlier | isLast
    · exact past time earlier
    · exact (List.mem_singleton.mp isLast).le

theorem closed_nil (clock : Int) : Closed clock [] :=
  ⟨[], rfl, List.Pairwise.nil, nofun⟩

theorem Closed.opened (closed : Closed clock entries) :
    Open clock (entries ++ [⟨some clock, none⟩]) := by
  obtain ⟨times, listed, ordered, past⟩ := closed
  obtain ⟨orderedNow, pastNow⟩ := pairwise_snoc ordered past
  refine ⟨times ++ [clock], ?_, orderedNow, pastNow⟩
  rw [entryTimes_append, listed, List.append_nil, List.map_append, List.append_assoc]
  rfl

theorem Open.ne_nil (isOpen : Open clock entries) : entries ≠ [] := by
  obtain ⟨times, listed, _ordered, _past⟩ := isOpen
  intro empty
  rw [empty] at listed
  exact absurd listed.symm (List.append_ne_nil_of_right_ne_nil _ (List.cons_ne_nil _ _))

/-- The last entry of an open list has no stop, and giving it one closes it. -/
theorem Open.last (isOpen : Open clock entries) :
    ∃ earlier start, entries = earlier ++ [⟨start, none⟩] ∧
      Closed clock (earlier ++ [⟨start, some clock⟩]) := by
  have nonempty := isOpen.ne_nil
  obtain ⟨times, listed, ordered, past⟩ := isOpen
  obtain ⟨earlier, last, rfl⟩ := (List.eq_nil_or_concat entries).resolve_left nonempty
  have split : entryTimes earlier ++ [last.start] ++ [last.stop] = times.map some ++ [none] := by
    rw [List.concat_eq_append, entryTimes_append] at listed
    rw [List.append_assoc]
    exact listed
  obtain ⟨same, stopped⟩ := List.append_inj' split rfl
  have noStop : last.stop = none := (List.cons.inj stopped).1
  obtain ⟨orderedNow, pastNow⟩ := pairwise_snoc ordered past
  refine ⟨earlier, last.start, ?_, times ++ [clock], ?_, orderedNow, pastNow⟩
  · rw [List.concat_eq_append, ← noStop]
  · rw [entryTimes_append, List.map_append, ← same, List.append_nil, List.append_assoc]
    rfl

theorem Closed.all (closed : Closed clock entries) : ∀ entry ∈ entries, entry.stop ≠ none := by
  obtain ⟨times, listed, _ordered, _past⟩ := closed
  intro entry member noStop
  have there : none ∈ entryTimes entries := by
    rw [← noStop]
    exact List.mem_flatMap.mpr ⟨entry, member, by simp⟩
  rw [listed, List.append_nil] at there
  obtain ⟨time, _member, impossible⟩ := List.mem_map.mp there
  cases impossible

end Entries

/-! ### Pool and ledger -/

structure Book where
  pool : List String
  ledger : Ledger

/-- An instance goes out of the pool with its entry opened, or comes back into
it with its entry closed. -/
inductive BookStep (ids : List String) (now : String → Int) : Book → Book → Prop
  | opens {book : Book} {id : String} {rest : List String} {ledger : Ledger}
      (first : book.pool = id :: rest)
      (opened : book.ledger.openAt id (now id) = some ledger) :
      BookStep ids now book ⟨rest, ledger⟩
  | closes {book : Book} {id : String} {ledger : Ledger} (known : id ∈ ids)
      (outside : id ∉ book.pool) (closed : book.ledger.closeAt id (now id) = some ledger) :
      BookStep ids now book ⟨book.pool ++ [id], ledger⟩

abbrev BookSteps (ids : List String) (now : String → Int) : Book → Book → Prop :=
  Relation.ReflTransGen (BookStep ids now)

structure Book.Kept (ids : List String) (clock : String → Int) (book : Book) : Prop where
  nodup : book.pool.Nodup
  known : ∀ id ∈ book.pool, id ∈ ids
  pooled : ∀ id ∈ book.pool, ∃ entries, book.ledger id = some entries ∧
    Closed (clock id) entries
  active : ∀ id ∈ ids, id ∉ book.pool → ∃ entries, book.ledger id = some entries ∧
    Open (clock id) entries

section Books

variable {ids : List String} {clock now : String → Int} {book after : Book}

theorem Book.Kept.later (kept : book.Kept ids clock) (forward : ∀ id, clock id ≤ now id) :
    book.Kept ids now := by
  refine ⟨kept.nodup, kept.known, ?_, ?_⟩
  · intro id member
    obtain ⟨entries, found, closed⟩ := kept.pooled id member
    exact ⟨entries, found, TimedUpTo.later closed (forward id)⟩
  · intro id known outside
    obtain ⟨entries, found, isOpen⟩ := kept.active id known outside
    exact ⟨entries, found, TimedUpTo.later isOpen (forward id)⟩

theorem Book.Kept.opens (kept : book.Kept ids now) {id : String} {rest : List String}
    {ledger : Ledger} (first : book.pool = id :: rest)
    (opened : book.ledger.openAt id (now id) = some ledger) :
    (⟨rest, ledger⟩ : Book).Kept ids now := by
  have nodup := kept.nodup
  rw [first, List.nodup_cons] at nodup
  obtain ⟨entries, found, rfl⟩ := Option.map_eq_some_iff.mp opened
  have closed : Closed (now id) entries := by
    obtain ⟨listed, there, closed⟩ := kept.pooled id (by rw [first]; exact List.mem_cons_self)
    rw [found] at there
    rw [Option.some.inj there]
    exact closed
  refine ⟨nodup.2, ?_, ?_, ?_⟩
  · intro other member
    exact kept.known other (by rw [first]; exact List.mem_cons_of_mem _ member)
  · intro other member
    have apart : other ≠ id := fun same => nodup.1 (same ▸ member)
    obtain ⟨listed, there, closed⟩ :=
      kept.pooled other (by rw [first]; exact List.mem_cons_of_mem _ member)
    exact ⟨listed, (Function.update_of_ne apart _ _).trans there, closed⟩
  · intro other known outside
    by_cases here : other = id
    · subst here
      exact ⟨_, Function.update_self _ _ _, closed.opened⟩
    · obtain ⟨listed, there, isOpen⟩ := kept.active other known
        (by rw [first]; exact fun member => outside ((List.mem_cons.mp member).resolve_left here))
      exact ⟨listed, (Function.update_of_ne here _ _).trans there, isOpen⟩

theorem Book.Kept.closes (kept : book.Kept ids now) {id : String} {ledger : Ledger}
    (known : id ∈ ids) (outside : id ∉ book.pool)
    (closed : book.ledger.closeAt id (now id) = some ledger) :
    (⟨book.pool ++ [id], ledger⟩ : Book).Kept ids now := by
  obtain ⟨entries, found, isOpen⟩ := kept.active id known outside
  obtain ⟨earlier, start, rfl, nowClosed⟩ := isOpen.last
  have written : ledger = book.ledger.set id (earlier ++ [⟨start, some (now id)⟩]) := by
    unfold Ledger.closeAt at closed
    rw [found] at closed
    have same := Option.some.inj closed
    dsimp only at same
    rw [List.getLast?_concat, List.dropLast_concat] at same
    exact same.symm
  subst written
  refine ⟨?_, ?_, ?_, ?_⟩
  · rw [List.nodup_append]
    refine ⟨kept.nodup, List.nodup_singleton id, ?_⟩
    intro other member last isLast same
    rw [List.mem_singleton.mp isLast] at same
    exact outside (same ▸ member)
  · intro other member
    rcases List.mem_append.mp member with earlier | isLast
    · exact kept.known other earlier
    · rw [List.mem_singleton.mp isLast]
      exact known
  · intro other member
    by_cases here : other = id
    · subst here
      exact ⟨_, Function.update_self _ _ _, nowClosed⟩
    · have earlier : other ∈ book.pool := by
        rcases List.mem_append.mp member with earlier | isLast
        · exact earlier
        · exact absurd (List.mem_singleton.mp isLast) here
      obtain ⟨entries, there, closed⟩ := kept.pooled other earlier
      exact ⟨entries, (Function.update_of_ne here _ _).trans there, closed⟩
  · intro other otherKnown stillOutside
    have here : other ≠ id := by
      intro same
      exact stillOutside (List.mem_append_right _ (List.mem_singleton.mpr same))
    obtain ⟨entries, there, isOpen⟩ := kept.active other otherKnown
      (fun member => stillOutside (List.mem_append_left _ member))
    exact ⟨entries, (Function.update_of_ne here _ _).trans there, isOpen⟩

theorem Book.Kept.of_steps (kept : book.Kept ids now) (steps : BookSteps ids now book after) :
    after.Kept ids now := by
  induction steps with
  | refl => exact kept
  | tail _steps step ih =>
      cases step with
      | opens first opened => exact ih.opens first opened
      | closes known outside closed => exact ih.closes known outside closed

/-- Whoever is known has a ledger, so no lookup of a pool or of an instance on
its way back raises. -/
theorem Book.Kept.found (kept : book.Kept ids clock) {id : String} (known : id ∈ ids) :
    ∃ entries, book.ledger id = some entries := by
  by_cases inside : id ∈ book.pool
  · obtain ⟨entries, there, _closed⟩ := kept.pooled id inside
    exact ⟨entries, there⟩
  · obtain ⟨entries, there, _open⟩ := kept.active id known inside
    exact ⟨entries, there⟩

/-- The loop after the experiment closes what is still open. -/
theorem Book.Kept.closeOpen (kept : book.Kept ids now) {id : String} (known : id ∈ ids) :
    ∃ entries, book.ledger.closeOpen now id = some entries ∧ Closed (now id) entries := by
  unfold Ledger.closeOpen
  by_cases inside : id ∈ book.pool
  · obtain ⟨entries, there, closed⟩ := kept.pooled id inside
    rw [there]
    refine ⟨entries, ?_, closed⟩
    rw [Option.map_some]
    congr 1
    cases last : entries.getLast? with
    | none => rfl
    | some entry =>
        dsimp only
        exact if_neg (closed.all entry (List.mem_of_getLast? last))
  · obtain ⟨entries, there, isOpen⟩ := kept.active id known inside
    obtain ⟨earlier, start, rfl, nowClosed⟩ := isOpen.last
    rw [there]
    refine ⟨earlier ++ [⟨start, some (now id)⟩], ?_, nowClosed⟩
    rw [Option.map_some, List.getLast?_concat, List.dropLast_concat]
    rfl

end Books

end AutoBurst.Controller
