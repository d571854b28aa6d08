import OptionX.Storage.RecordKey
import OptionX.Lib.Run

/-!
# Ids handed out over a run

Both record databases hand out ids from a sequence that is kept apart from the records. What is said of it here is
said of any machine whose calls take the first free id from a cursor on.
-/

namespace OptionX.Storage

open Lib.Run (exec trace stepOf)

/-- A machine that stores records under ids and hands out ids. -/
structure IdSource (σ ε ρ : Type) where
  step : σ → ε → σ × ρ
  stored : σ → UInt32 → Prop
  /-- Where the next search for an id starts. -/
  cursor : σ → UInt32
  /-- The call needs an id. -/
  reserves : σ → ε → Prop
  /-- The id that a step has handed out. -/
  handed : Lib.Step σ ε ρ → Option UInt32

namespace IdSource

variable {σ ε ρ : Type}

/-- The ids that a run hands out, in order. -/
def handedOut (S : IdSource σ ε ρ) (s : σ) (es : List ε) : List UInt32 := (trace S.step s es).filterMap S.handed

/-- The run has handed out the id or had a record of it. -/
def Used (S : IdSource σ ε ρ) (s : σ) (es : List ε) (id : UInt32) : Prop :=
  id ∈ S.handedOut s es ∨ ∃ n, S.stored (exec S.step s (es.take n)) id

/-- Each id that the run hands out is not zero, has no record, and has not been handed out before, unless every id has
been used. -/
def Distinct (S : IdSource σ ε ρ) (s : σ) (es : List ε) : Prop :=
  ∀ pre e post, es = pre ++ e :: post → ∀ id, S.handed (stepOf S.step (exec S.step s pre) e) = some id →
    id ≠ 0 ∧ ¬ S.stored (exec S.step s pre) id ∧ (id ∈ S.handedOut s pre → ∀ i, i ≠ 0 → S.Used s pre i)

/-- Whenever an id is needed, the way from the cursor to each id that was handed out and has no record leads past an
id that has no record and was not handed out, unless every id has been used. -/
def NewIdsFirst (S : IdSource σ ε ρ) (s : σ) (es : List ε) : Prop :=
  ∀ pre e post, es = pre ++ e :: post → S.reserves (exec S.step s pre) e →
    (∀ i, i ≠ 0 → S.Used s pre i) ∨
      ∀ old ∈ S.handedOut s pre, ¬ S.stored (exec S.step s pre) old →
        ∃ new, new ≠ 0 ∧ ¬ S.stored (exec S.step s pre) new ∧ new ∉ S.handedOut s pre ∧
          distance (S.cursor (exec S.step s pre)) new < distance (S.cursor (exec S.step s pre)) old

/-- A call that needs an id hands out the first one from the cursor on that has no record, and no other call does. -/
structure TakesFirst (S : IdSource σ ε ρ) (s : σ) (e : ε) : Prop where
  first : ∀ id, S.handed (stepOf S.step s e) = some id → S.reserves s e ∧ id ≠ 0 ∧ ¬ S.stored s id ∧
    ∀ i, i ≠ 0 → distance (S.cursor s) i < distance (S.cursor s) id → S.stored s i
  exhausted : S.reserves s e → S.handed (stepOf S.step s e) = none → ∀ i, i ≠ 0 → S.stored s i

variable {S : IdSource σ ε ρ} {s : σ} {e : ε} {es : List ε}

/-- A call takes the first id when it hands out what the search finds, and only if it needs one. -/
theorem TakesFirst.of_free {m : Meta} {taken : UInt32 → Bool} (hstored : ∀ id, taken id = true ↔ S.stored s id)
    (hcursor : S.cursor s = m.firstCandidate)
    (hyes : S.reserves s e →
      S.handed (stepOf S.step s e) = if m.freeId taken = 0 then none else some (m.freeId taken))
    (hno : ¬ S.reserves s e → S.handed (stepOf S.step s e) = none) : S.TakesFirst s e := by
  obtain ⟨hnone, hfirst⟩ := (m.freeId_finds taken).2
  by_cases hr : S.reserves s e
  · refine ⟨fun id hid => ?_, fun _ hid i hi => ?_⟩
    · obtain ⟨h0, rfl⟩ : m.freeId taken ≠ 0 ∧ m.freeId taken = id := by simpa [hyes hr] using hid
      obtain ⟨hfree, hbefore⟩ := hfirst h0
      refine ⟨hr, h0, fun hs => ?_, fun i hi hlt => (hstored i).mp (hbefore i hi (hcursor ▸ hlt))⟩
      rw [(hstored _).mpr hs] at hfree
      cases hfree
    · have h0 : m.freeId taken = 0 := by simpa [hyes hr] using hid
      exact (hstored i).mp (hnone h0 i hi)
  · refine ⟨fun id hid => ?_, fun hr' => absurd hr' hr⟩
    rw [hno hr] at hid
    cases hid

theorem handedOut_ne_zero (h : ∀ pre e, S.TakesFirst (exec S.step s pre) e) : ∀ id ∈ S.handedOut s es, id ≠ 0 := by
  intro id hid
  obtain ⟨t, ht, hhanded⟩ := List.mem_filterMap.mp hid
  obtain ⟨pre, e, post, -, rfl⟩ := Lib.Run.mem_trace ht
  exact ((h pre e).first id hhanded).2.1

/-- The ids of a run are distinct exactly when new ids come first. -/
theorem distinct_iff (h : ∀ pre e, S.TakesFirst (exec S.step s pre) e) : S.Distinct s es ↔ S.NewIdsFirst s es := by
  constructor
  · intro hd pre e post hes hr
    cases hid : S.handed (stepOf S.step (exec S.step s pre) e) with
    | none =>
        have hall := (h pre e).exhausted hr hid
        exact .inr fun old hold hfree => absurd (hall old (handedOut_ne_zero h old hold)) hfree
    | some id =>
        obtain ⟨-, h0, hfree, hfirst⟩ := (h pre e).first id hid
        obtain ⟨-, -, hused⟩ := hd pre e post hes id hid
        by_cases hmem : id ∈ S.handedOut s pre
        · exact .inl (hused hmem)
        · refine .inr fun old hold hofree => ⟨id, h0, hfree, hmem, ?_⟩
          have hle : ¬ distance (S.cursor (exec S.step s pre)) old < distance (S.cursor (exec S.step s pre)) id :=
            fun hlt => hofree (hfirst old (handedOut_ne_zero h old hold) hlt)
          refine lt_of_le_of_ne (not_lt.mp hle) fun heq => hmem ?_
          rw [distance_inj heq]
          exact hold
  · intro hn pre e post hes id hid
    obtain ⟨hr, h0, hfree, hfirst⟩ := (h pre e).first id hid
    refine ⟨h0, hfree, fun hmem => ?_⟩
    rcases hn pre e post hes hr with hused | hnew
    · exact hused
    · obtain ⟨new, hn0, hnfree, -, hlt⟩ := hnew id hmem hfree
      exact absurd (hfirst new hn0 hlt) hnfree

end IdSource

end OptionX.Storage
