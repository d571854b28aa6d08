import OptionX.MarketData.Types

/-!
# One history request at a time

What bar routes and tick routes share when their payloads and watermarks are left out: the phase, the request in
flight, the generation that voids old requests, and the retry that is due. `Move` lists what a route can do to
this control. Invariants are proved for the moves; the routes make only moves.
-/

namespace OptionX.MarketData

/-- A history request that was handed to the provider. -/
structure Sent (R : Type) where
  id : Nat
  pending : R
  generation : Nat

/-- The control of a route: its settings (whether a prefill is configured at all, the grid of its history, and the
attempts that a request has), its state, and the identity of its next operation. -/
structure Control (R : Type) where
  entry : EntryPhase
  mode : ContinuityMode
  prefills : Bool
  gridMs : Nat
  maxAttempts : Nat
  phase : ContinuityPhase
  prefillPending : Bool
  inFlight : Bool
  generation : Nat
  retry : Option R
  next : Nat

/-- How requests count their attempts: the attempt a request is, the request made again, and what is true of every
request that is made. -/
structure Attempts (R : Type) where
  attempt : R → Nat
  again : R → R
  good : R → Prop
  attempt_again : ∀ p, attempt (again p) = attempt p + 1
  good_again : ∀ p, good p → good (again p)

namespace Control

variable {R : Type}

/-- The request `p` goes out in the current generation. -/
def send (c : Control R) (p : R) : Sent R := ⟨c.next, p, c.generation⟩

/-- What a route does to its control, and the requests it sends. -/
inductive Move (A : Attempts R) : Control R → List (Sent R) → Control R → Prop where
  /-- A first attempt. -/
  | request {c : Control R} {p : R} {phase : ContinuityPhase} : phase = .prefilling ∨ phase = .recovering →
      c.entry = .active → c.mode.enabled = true → c.inFlight = false → c.retry = none → A.attempt p = 1 → A.good p →
      Move A c [c.send p] { c with phase, inFlight := true, next := c.next + 1 }
  /-- The retry that is due. -/
  | again {c : Control R} {p : R} {phase : ContinuityPhase} : phase = .prefilling ∨ phase = .recovering →
      c.entry = .active → c.retry = some p →
      Move A c [c.send p] { c with phase, inFlight := true, next := c.next + 1, retry := none }
  /-- A buffer overflow ends continuity. -/
  | overflow (c : Control R) :
      Move A c [] { c with
        mode := .liveOnly, phase := .degraded, prefillPending := false, inFlight := false, retry := none }
  /-- A transport loss voids what was asked for. -/
  | lose (c : Control R) :
      Move A c [] { c with
        phase := .waitingForReady, inFlight := false, generation := c.generation + 1, retry := none }
  /-- A recovery waits for its turn. -/
  | wait {c : Control R} : c.mode.recoversGaps = true → c.prefillPending = false →
      Move A c [] { c with phase := .recovering }
  /-- A recovery comes to its end. -/
  | settle {c : Control R} {phase : ContinuityPhase} : c.retry = none → phase.buffersLiveData = false →
      Move A c [] { c with phase }

/-- Any number of moves. -/
inductive Moves (A : Attempts R) : Control R → List (Sent R) → Control R → Prop where
  | refl (c : Control R) : Moves A c [] c
  | tail {c c' c'' : Control R} {sent sent' : List (Sent R)} :
      Moves A c sent c' → Move A c' sent' c'' → Moves A c (sent ++ sent') c''

/-- At least one move. -/
def Ends (A : Attempts R) (c : Control R) (sent : List (Sent R)) (c' : Control R) : Prop :=
  ∃ c₁ sent₁ sent₂, Moves A c sent₁ c₁ ∧ Move A c₁ sent₂ c' ∧ sent = sent₁ ++ sent₂

section

variable {A : Attempts R} {c c' c'' : Control R} {sent sent' : List (Sent R)}

theorem Move.ends (h : Move A c sent c') : Ends A c sent c' :=
  ⟨c, [], sent, .refl c, h, rfl⟩

theorem Ends.moves (h : Ends A c sent c') : Moves A c sent c' := by
  obtain ⟨c₁, sent₁, sent₂, hm, hlast, rfl⟩ := h
  exact .tail hm hlast

theorem Move.moves (h : Move A c sent c') : Moves A c sent c' := h.ends.moves

theorem Moves.trans (h : Moves A c sent c') (h' : Moves A c' sent' c'') : Moves A c (sent ++ sent') c'' := by
  induction h' with
  | refl => rwa [List.append_nil]
  | tail _ hlast ih =>
      rw [← List.append_assoc]
      exact .tail ih hlast

theorem Moves.ends (h : Moves A c sent c') (h' : Ends A c' sent' c'') : Ends A c (sent ++ sent') c'' := by
  obtain ⟨c₁, sent₁, sent₂, hm, hlast, rfl⟩ := h'
  exact ⟨c₁, sent ++ sent₁, sent₂, h.trans hm, hlast, (List.append_assoc ..).symm⟩

theorem Ends.then (h : Ends A c sent c') (h' : Moves A c' sent' c'') : Ends A c (sent ++ sent') c'' := by
  cases h' with
  | refl => rwa [List.append_nil]
  | tail hm hlast => exact ⟨_, _, _, h.moves.trans hm, hlast, (List.append_assoc ..).symm⟩

end

theorem Move.retry_none {A : Attempts R} {c c' : Control R} {sent : List (Sent R)} (h : Move A c sent c')
    (hr : c.retry = none) : c'.retry = none := by
  cases h with
  | request => exact hr
  | again => rfl
  | overflow => rfl
  | lose => rfl
  | wait => exact hr
  | settle => exact hr

theorem Moves.retry_none {A : Attempts R} {c c' : Control R} {sent : List (Sent R)} (h : Moves A c sent c')
    (hr : c.retry = none) : c'.retry = none := by
  induction h with
  | refl => exact hr
  | tail _ hlast ih => exact hlast.retry_none ih

theorem Moves.entry {A : Attempts R} {c c' : Control R} {sent : List (Sent R)} (h : Moves A c sent c') :
    c'.entry = c.entry := by
  induction h with
  | refl => rfl
  | tail _ hlast ih => exact Eq.trans (by cases hlast <;> rfl) ih

theorem Moves.gridMs {A : Attempts R} {c c' : Control R} {sent : List (Sent R)} (h : Moves A c sent c') :
    c'.gridMs = c.gridMs := by
  induction h with
  | refl => rfl
  | tail _ hlast ih => exact Eq.trans (by cases hlast <;> rfl) ih

/-! ## Identities -/

/-- What a step keeps of the identities of requests, and of the attempts they have; a disabled route sends
nothing. -/
structure Carries (c : Control R) (sent : List (Sent R)) (c' : Control R) : Prop where
  next : c.next ≤ c'.next
  ids : ∀ o ∈ sent, c.next ≤ o.id
  maxAttempts : c'.maxAttempts = c.maxAttempts
  disabled : c.mode.enabled = false → c.retry = none → sent = [] ∧ c'.mode.enabled = false ∧ c'.retry = none

theorem Carries.silent {c c' : Control R} (hn : c'.next = c.next) (hm : c'.maxAttempts = c.maxAttempts)
    (hd : c.mode.enabled = false → c.retry = none → c'.mode.enabled = false ∧ c'.retry = none) :
    Carries c [] c' where
  next := hn.ge
  ids o ho := by cases ho
  maxAttempts := hm
  disabled he hr := ⟨rfl, hd he hr⟩

theorem Carries.refl (c : Control R) : Carries c [] c := .silent rfl rfl fun he hr => ⟨he, hr⟩

theorem Carries.trans {c c' c'' : Control R} {sent sent' : List (Sent R)} (h : Carries c sent c')
    (h' : Carries c' sent' c'') : Carries c (sent ++ sent') c'' where
  next := h.next.trans h'.next
  ids o ho := (List.mem_append.mp ho).elim (h.ids o) fun ho => h.next.trans (h'.ids o ho)
  maxAttempts := h'.maxAttempts.trans h.maxAttempts
  disabled he hr := by
    obtain ⟨h1, h2, h3⟩ := h.disabled he hr
    obtain ⟨h4, h5⟩ := h'.disabled h2 h3
    exact ⟨by rw [h1, h4]; rfl, h5⟩

theorem Move.carries {A : Attempts R} {c c' : Control R} {sent : List (Sent R)} (h : Move A c sent c') :
    Carries c sent c' := by
  cases h with
  | request _ _ he =>
      exact ⟨Nat.le_succ _, fun o ho => (List.mem_singleton.mp ho) ▸ le_rfl, rfl,
        fun hd => absurd he (by rw [hd]; exact Bool.false_ne_true)⟩
  | again _ _ hr =>
      exact ⟨Nat.le_succ _, fun o ho => (List.mem_singleton.mp ho) ▸ le_rfl, rfl,
        fun _ hn => by rw [hr] at hn; cases hn⟩
  | overflow => exact .silent rfl rfl fun _ _ => ⟨rfl, rfl⟩
  | lose => exact .silent rfl rfl fun he _ => ⟨he, rfl⟩
  | wait => exact .silent rfl rfl fun he hr => ⟨he, hr⟩
  | settle => exact .silent rfl rfl fun he hr => ⟨he, hr⟩

theorem Moves.carries {A : Attempts R} {c c' : Control R} {sent : List (Sent R)} (h : Moves A c sent c') :
    Carries c sent c' := by
  induction h with
  | refl => exact .refl _
  | tail _ hlast ih => exact ih.trans hlast.carries

/-! ## Phases a route can rest in -/

/-- A route that holds live data back waits for something that will move it on. -/
def Rests (c : Control R) : Prop :=
  c.entry = .active → c.mode.enabled = true → c.phase.buffersLiveData = true →
    c.phase ≠ .flushing ∧
      (c.inFlight = true ∨ c.retry.isSome = true ∨ c.phase = .waitingForReady ∨
        (c.phase = .recovering ∧ c.prefillPending = false ∧ c.mode.recoversGaps = true))

section

variable {A : Attempts R} {c c' : Control R} {sent : List (Sent R)}

/-- The phases of a request. -/
theorem requests_ne {phase : ContinuityPhase} (h : phase = .prefilling ∨ phase = .recovering) :
    phase ≠ .flushing := by
  rcases h with rfl | rfl <;> decide

theorem Move.rests (h : Move A c sent c') : c'.Rests := by
  cases h with
  | request hphase => exact fun _ _ _ => ⟨requests_ne hphase, .inl rfl⟩
  | again hphase => exact fun _ _ _ => ⟨requests_ne hphase, .inl rfl⟩
  | overflow => exact fun _ h _ => by cases h
  | lose => exact fun _ _ _ => ⟨ContinuityPhase.noConfusion, .inr (.inr (.inl rfl))⟩
  | wait hr hp => exact fun _ _ _ => ⟨ContinuityPhase.noConfusion, .inr (.inr (.inr ⟨rfl, hp, hr⟩))⟩
  | settle _ hp => exact fun _ _ h => absurd h (by rw [hp]; exact Bool.false_ne_true)

theorem Ends.rests (h : Ends A c sent c') : c'.Rests := by
  obtain ⟨_, _, _, _, hlast, _⟩ := h
  exact hlast.rests

theorem Moves.rests (h : Moves A c sent c') (hc : c.Rests) : c'.Rests := by
  cases h with
  | refl => exact hc
  | tail _ hlast => exact hlast.rests

end

/-- A route whose subscription is not confirmed yet does nothing. -/
def Fresh (c : Control R) : Prop :=
  c.entry = .pending →
    c.inFlight = false ∧ c.retry = none ∧ c.phase = if c.prefillPending then .prefilling else .live

/-! ## Requests that count -/

/-- The requests of a route in their order: each is a first attempt, or repeats the request before it within the
budget. -/
inductive Budgeted (A : Attempts R) (max : Nat) : List R → Prop where
  | nil : Budgeted A max []
  | first {ps : List R} {p : R} : Budgeted A max ps → A.attempt p = 1 → Budgeted A max (ps ++ [p])
  | again {ps : List R} {p : R} : Budgeted A max ps → ps.getLast? = some p → A.attempt p < max →
      Budgeted A max (ps ++ [A.again p])

theorem Budgeted.attempt_le {A : Attempts R} {max : Nat} {ps : List R} (h : Budgeted A max ps) (hmax : 0 < max) :
    ∀ p ∈ ps, A.attempt p ≤ max := by
  induction h with
  | nil => simp
  | first _ h1 ih =>
      intro q hq
      rcases List.mem_append.mp hq with hq | hq
      · exact ih q hq
      · rw [List.mem_singleton.mp hq, h1]
        exact hmax
  | again _ _ hlt ih =>
      intro q hq
      rcases List.mem_append.mp hq with hq | hq
      · exact ih q hq
      · rw [List.mem_singleton.mp hq, A.attempt_again]
        exact hlt

/-- The control of a route together with its unfinished operations and all the requests it ever sent: only the
last request can count, and it does only while one is in flight. -/
structure Sound (A : Attempts R) (c : Control R) (unfinished : List (Sent R)) (sent : List R) :
    Prop where
  ids : ∀ o ∈ unfinished, o.id < c.next
  nodup : (unfinished.map (·.id)).Nodup
  generations : ∀ o ∈ unfinished, o.generation ≤ c.generation
  only : c.inFlight = true → ∀ o ∈ unfinished, o.generation = c.generation →
    o.id + 1 = c.next ∧ sent.getLast? = some o.pending
  idle : c.inFlight = false → c.mode.enabled = true → ∀ o ∈ unfinished, o.generation ≠ c.generation
  disabled : c.mode.enabled = false → c.inFlight = false ∧ c.prefillPending = false ∧ c.retry = none
  retry : ∀ p, c.retry = some p →
    c.inFlight = false ∧ ∃ q, sent.getLast? = some q ∧ p = A.again q ∧ A.attempt q < c.maxAttempts
  held : c.retry.isSome = true → c.phase = .prefilling ∨ c.phase = .recovering
  prefills : c.prefillPending = true → c.prefills = true
  budget : Budgeted A c.maxAttempts sent
  good : ∀ p ∈ sent, A.good p

section

variable {A : Attempts R} {c c' : Control R} {unfinished : List (Sent R)} {sent : List R}

/-- Operations may be dropped, and their order does not matter. -/
theorem Sound.of_subperm (h : Sound A c unfinished sent) {rest : List (Sent R)}
    (hr : rest.Subperm unfinished) : Sound A c rest sent where
  ids o ho := h.ids o (hr.subset ho)
  nodup := by
    obtain ⟨l, hperm, hsub⟩ := hr
    exact (hperm.map _).nodup_iff.mp (h.nodup.sublist (hsub.map _))
  generations o ho := h.generations o (hr.subset ho)
  only hf o ho := h.only hf o (hr.subset ho)
  idle hf he o ho := h.idle hf he o (hr.subset ho)
  disabled := h.disabled
  retry := h.retry
  held := h.held
  prefills := h.prefills
  budget := h.budget
  good := h.good

/-- Two unfinished operations never both count. -/
theorem Sound.current_unique (h : Sound A c unfinished sent) (hf : c.inFlight = true) {o o' : Sent R}
    (ho : o ∈ unfinished) (ho' : o' ∈ unfinished) (hg : o.generation = c.generation)
    (hg' : o'.generation = c.generation) : o = o' := by
  have h1 := (h.only hf o ho hg).1
  have h2 := (h.only hf o' ho' hg').1
  exact List.inj_on_of_nodup_map h.nodup ho ho' (by omega)

/-- A request that goes out is the only one that counts. -/
theorem Sound.sends (h : Sound A c unfinished sent) (he : c.mode.enabled = true) (hf : c.inFlight = false)
    {p : R} (hbudget : Budgeted A c.maxAttempts (sent ++ [p])) (hgood : A.good p) (phase : ContinuityPhase) :
    Sound A { c with phase, inFlight := true, next := c.next + 1, retry := none }
      (unfinished ++ [c.send p]) (sent ++ [p]) where
  ids o ho := by
    rcases List.mem_append.mp ho with ho | ho
    · exact Nat.lt_succ_of_lt (h.ids o ho)
    · rw [List.mem_singleton.mp ho]
      exact Nat.lt_succ_self _
  nodup := by
    rw [List.map_append, List.nodup_append]
    refine ⟨h.nodup, List.nodup_singleton _, fun i hi j hj => ?_⟩
    obtain ⟨o, ho, rfl⟩ := List.mem_map.mp hi
    rw [List.mem_singleton.mp hj]
    exact (h.ids o ho).ne
  generations o ho := by
    rcases List.mem_append.mp ho with ho | ho
    · exact h.generations o ho
    · rw [List.mem_singleton.mp ho]
      exact le_rfl
  only _ o ho hg := by
    rcases List.mem_append.mp ho with ho | ho
    · exact absurd hg (h.idle hf he o ho)
    · rw [List.mem_singleton.mp ho]
      exact ⟨rfl, List.getLast?_concat⟩
  idle hf' := by cases hf'
  disabled hd := absurd he (by rw [hd]; exact Bool.false_ne_true)
  retry _ hp := by cases hp
  held hp := by cases hp
  prefills := h.prefills
  budget := hbudget
  good q hq := by
    rcases List.mem_append.mp hq with hq | hq
    · exact h.good q hq
    · rw [List.mem_singleton.mp hq]
      exact hgood

theorem Sound.move (h : Sound A c unfinished sent) {ops : List (Sent R)} (hm : Move A c ops c') :
    Sound A c' (unfinished ++ ops) (sent ++ ops.map (·.pending)) := by
  cases hm with
  | request _ _ he hf hr h1 hgood =>
      have hs := h.sends he hf (.first h.budget h1) hgood
      rw [← hr] at hs
      exact hs _
  | again _ _ hr =>
      obtain ⟨hf, q, hq, rfl, hlt⟩ := h.retry _ hr
      have he : c.mode.enabled = true := by
        cases hm : c.mode.enabled with
        | true => rfl
        | false => rw [(h.disabled hm).2.2] at hr; cases hr
      exact h.sends he hf (.again h.budget hq hlt) (A.good_again q (h.good q (List.mem_of_getLast? hq))) _
  | overflow =>
      rw [List.append_nil, List.map_nil, List.append_nil]
      exact ⟨h.ids, h.nodup, h.generations, fun hf => (by cases hf), fun _ he => (by cases he),
        fun _ => ⟨rfl, rfl, rfl⟩, fun _ hp => (by cases hp), fun hp => (by cases hp), fun hp => (by cases hp),
        h.budget, h.good⟩
  | lose =>
      rw [List.append_nil, List.map_nil, List.append_nil]
      exact ⟨h.ids, h.nodup, fun o ho => Nat.le_succ_of_le (h.generations o ho), fun hf => (by cases hf),
        fun _ _ o ho => (Nat.lt_succ_of_le (h.generations o ho)).ne,
        fun hd => ⟨rfl, (h.disabled hd).2.1, rfl⟩, fun _ hp => (by cases hp), fun hp => (by cases hp),
        h.prefills, h.budget, h.good⟩
  | wait =>
      rw [List.append_nil, List.map_nil, List.append_nil]
      exact ⟨h.ids, h.nodup, h.generations, h.only, h.idle, h.disabled, h.retry, fun _ => .inr rfl, h.prefills,
        h.budget, h.good⟩
  | settle hr =>
      rw [List.append_nil, List.map_nil, List.append_nil]
      exact ⟨h.ids, h.nodup, h.generations, h.only, h.idle, h.disabled, h.retry,
        fun hp => (by rw [hr] at hp; cases hp), h.prefills, h.budget, h.good⟩

theorem Sound.moves (h : Sound A c unfinished sent) {ops : List (Sent R)} (hm : Moves A c ops c') :
    Sound A c' (unfinished ++ ops) (sent ++ ops.map (·.pending)) := by
  induction hm with
  | refl => simpa using h
  | tail _ hlast ih =>
      have hs := ih.move hlast
      rwa [List.append_assoc, List.append_assoc, ← List.map_append] at hs

theorem Sound.enter (h : Sound A c unfinished sent) (entry : EntryPhase) :
    Sound A { c with entry } unfinished sent :=
  ⟨h.ids, h.nodup, h.generations, h.only, h.idle, h.disabled, h.retry, h.held, h.prefills, h.budget, h.good⟩

/-- The operation that counts is finished: nothing counts any more. -/
theorem Sound.finish (h : Sound A c unfinished sent) (hf : c.inFlight = true) {o : Sent R}
    (ho : o ∈ unfinished) (hg : o.generation = c.generation) (phase : ContinuityPhase)
    {prefillPending : Bool} (hp : prefillPending = true → c.prefillPending = true) {rest : List (Sent R)}
    (hr : rest.Sublist unfinished) (hid : ∀ o' ∈ rest, o'.id ≠ o.id) :
    Sound A { c with phase, inFlight := false, prefillPending } rest sent ∧
      sent.getLast? = some o.pending := by
  refine ⟨⟨fun o' ho' => h.ids o' (hr.subset ho'), h.nodup.sublist (hr.map _),
    fun o' ho' => h.generations o' (hr.subset ho'), fun hf' => (by cases hf'), fun _ _ o' ho' hg' => ?_,
    fun hd => ?_, fun p hp' => ?_, fun hp' => ?_, fun hp' => h.prefills (hp hp'), h.budget, h.good⟩,
    (h.only hf o ho hg).2⟩
  · exact hid o' ho' (by rw [h.current_unique hf (hr.subset ho') ho hg' hg])
  · rw [(h.disabled hd).1] at hf
    cases hf
  · rw [(h.retry p hp').1] at hf
    cases hf
  · obtain ⟨p, hr'⟩ := Option.isSome_iff_exists.mp hp'
    rw [(h.retry p hr').1] at hf
    cases hf

/-- A finished operation that failed is made again later. -/
theorem Sound.later (h : Sound A c unfinished sent) (hf : c.inFlight = false) (he : c.mode.enabled = true)
    {p : R} (hp : sent.getLast? = some p) (hlt : A.attempt p < c.maxAttempts) {phase : ContinuityPhase}
    (hphase : phase = .prefilling ∨ phase = .recovering) :
    Sound A { c with phase, retry := some (A.again p) } unfinished sent where
  ids := h.ids
  nodup := h.nodup
  generations := h.generations
  only := h.only
  idle := h.idle
  disabled hd := absurd he (by rw [hd]; exact Bool.false_ne_true)
  retry _ hq := ⟨hf, p, hp, (Option.some.inj hq).symm, hlt⟩
  held _ := hphase
  prefills := h.prefills
  budget := h.budget
  good := h.good

end

/-! ## Requests that are answered -/

/-- The request that an active route has in flight is still with the provider. -/
def Served (c : Control R) (unfinished : List (Sent R)) : Prop :=
  c.entry = .active → c.inFlight = true → ∃ o ∈ unfinished, o.generation = c.generation

section

variable {A : Attempts R} {c c' : Control R} {unfinished ops : List (Sent R)}

theorem Served.move (h : Served c unfinished) (hm : Move A c ops c') : Served c' (unfinished ++ ops) := by
  cases hm with
  | request => exact fun _ _ => ⟨_, List.mem_append_right _ (List.mem_singleton_self _), rfl⟩
  | again => exact fun _ _ => ⟨_, List.mem_append_right _ (List.mem_singleton_self _), rfl⟩
  | overflow => exact fun _ hf => by cases hf
  | lose => exact fun _ hf => by cases hf
  | wait => rwa [List.append_nil]
  | settle => rwa [List.append_nil]

theorem Served.moves (h : Served c unfinished) (hm : Moves A c ops c') : Served c' (unfinished ++ ops) := by
  induction hm with
  | refl => rwa [List.append_nil]
  | tail _ hlast ih =>
      rw [← List.append_assoc]
      exact ih.move hlast

end

end Control

end OptionX.MarketData
