import OptionX.Components.Hub
import OptionX.Lib.Calls

/-!
# What a step of a hub keeps

While calls do not overlap for a registered subscriber, what it has been told and what it is yet to be told fold to
what the hub keeps.
-/

namespace OptionX.Components

theorem TradingConditionUpdate.upsert_of_notMem {F : Type} {cached : List (TradingConditionUpdate F)}
    {u : TradingConditionUpdate F} (h : u.scope ∉ cached.map (·.scope)) :
    upsertCachedUpdate cached u = cached ++ [u] := by
  induction cached with
  | nil => rfl
  | cons c cs ih =>
      obtain ⟨hc, hcs⟩ := not_or.mp (mt List.mem_cons.mpr h)
      rw [upsert_cons_of_ne fun hu => hc hu.symm, ih hcs, List.cons_append]

/-- The merged updates are kept once for each scope, so their fold gives them back. -/
theorem TradingConditionUpdate.cachedUpdates_idem {F : Type} (us : List (TradingConditionUpdate F)) :
    cachedUpdates (cachedUpdates us) = cachedUpdates us := by
  have hnodup : ((cachedUpdates us).map (·.scope)).Nodup := by
    induction us using List.reverseRecOn with
    | nil => exact .nil
    | append_singleton us u ih =>
        rw [cachedUpdates, List.foldl_append, List.foldl_cons, List.foldl_nil, upsert_scopes]
        split
        · exact ih
        · next hu => exact List.nodup_append.mpr ⟨ih, by simp, fun a ha b hb => by
            rintro rfl
            exact hu (List.mem_singleton.mp hb ▸ ha)⟩
  have hfold : ∀ us cached : List (TradingConditionUpdate F), ((cached ++ us).map (·.scope)).Nodup →
      us.foldl upsertCachedUpdate cached = cached ++ us := by
    intro us
    induction us with
    | nil => simp
    | cons u us ih =>
        intro cached h
        have hu : u.scope ∉ cached.map (·.scope) := by
          rw [List.map_append, List.map_cons] at h
          exact fun hmem => (List.nodup_append.mp h).2.2 _ hmem _ List.mem_cons_self rfl
        rw [List.foldl_cons, upsert_of_notMem hu, ih _ (by simpa using h), List.append_assoc, List.singleton_append]
  exact hfold _ [] (by simpa using hnodup)

namespace Hub

variable {ι σ υ : Type} [DecidableEq ι] {R : Retention σ υ}

/-- The replay of what is kept makes the same again. -/
def Retention.Faithful (R : Retention σ υ) : Prop :=
  ∀ us : List υ, (R.replay (us.foldl R.keep R.empty)).foldl R.keep R.empty = us.foldl R.keep R.empty

/-- What a call has yet to tell a subscriber. -/
def dueIn (i : ι) (call : List (Delivery ι υ)) : List υ := (call.filter (·.subscriber = i)).map (·.update)

/-- What a subscriber is yet to be told. -/
def due (s : Hub ι σ υ) (i : ι) : List υ := s.calls.flatMap (dueIn i)

/-- A subscriber is added, and an update published, when the subscribers concerned have been told everything. -/
def Marshalled (s : Hub ι σ υ) : Event ι υ → Prop
  | .addSubscriber i => i ∉ s.pruned → s.due i = []
  | .publish _ => ∀ i ∈ s.pruned, s.due i = []
  | .clearCache => False
  | .removeSubscriber _ | .clearSubscribers | .deliver _ | .expire _ => True

/-- What holds of a registered subscriber. -/
structure Followed (R : Retention σ υ) (s : Hub ι σ υ) (i : ι) : Prop where
  /-- One call at most has anything to tell it. -/
  single : s.calls.Pairwise fun c c' => dueIn i c = [] ∨ dueIn i c' = []
  view : (s.received i ++ s.due i).foldl R.keep R.empty = s.cache

structure Orderly (R : Retention σ υ) (s : Hub ι σ υ) : Prop where
  replays : s.replayToNewSubscribers = true
  kept : ∃ us : List υ, s.cache = us.foldl R.keep R.empty
  followed : ∀ i ∈ s.subscribers, Followed R s i

theorem pruned_nodup {s : Hub ι σ υ} (h : s.subscribers.Nodup) : s.pruned.Nodup := h.filter _

theorem mem_of_mem_pruned {s : Hub ι σ υ} {i : ι} (h : i ∈ s.pruned) : i ∈ s.subscribers := (List.mem_filter.mp h).1

/-- Each subscriber is registered once. -/
theorem step_nodup {s : Hub ι σ υ} (h : s.subscribers.Nodup) (e : Event ι υ) : (s.step R e).1.subscribers.Nodup := by
  have hp := pruned_nodup h
  cases e with
  | addSubscriber i =>
      simp only [step, addSubscriber]
      split
      · exact h
      · split
        · exact hp
        · next hi =>
          exact List.nodup_append.mpr ⟨hp, by simp, fun a ha b hb => by
            rintro rfl
            exact hi (List.mem_singleton.mp hb ▸ ha)⟩
  | removeSubscriber i => exact hp.filter _
  | clearSubscribers => exact .nil
  | publish u => exact hp
  | clearCache => exact h
  | deliver call =>
      simp only [step, deliver]
      split <;> exact h
  | expire i =>
      simp only [step]
      split <;> exact h

@[simp] theorem dueIn_nil (i : ι) : dueIn i ([] : List (Delivery ι υ)) = [] := rfl

theorem dueIn_cons (i : ι) (d : Delivery ι υ) (ds : List (Delivery ι υ)) :
    dueIn i (d :: ds) = if d.subscriber = i then d.update :: dueIn i ds else dueIn i ds := by
  by_cases h : d.subscriber = i <;> simp [dueIn, h]

theorem dueIn_replay (i : ι) (us : List υ) : dueIn i (us.map (Delivery.mk i)) = us := by
  induction us with
  | nil => rfl
  | cons u us ih => rw [List.map_cons, dueIn_cons, if_pos rfl, ih]

theorem dueIn_replay_other {i j : ι} (h : j ≠ i) (us : List υ) : dueIn i (us.map (Delivery.mk j)) = [] := by
  induction us with
  | nil => rfl
  | cons u us ih => rw [List.map_cons, dueIn_cons, if_neg h, ih]

theorem dueIn_publish {is : List ι} (h : is.Nodup) (i : ι) (u : υ) :
    dueIn i (is.map (Delivery.mk · u)) = if i ∈ is then [u] else [] := by
  induction is with
  | nil => rfl
  | cons j js ih =>
      obtain ⟨hj, hjs⟩ := List.nodup_cons.mp h
      rw [List.map_cons, dueIn_cons, ih hjs]
      by_cases hji : j = i
      · subst hji
        simp [hj]
      · simp [hji, eq_comm (a := i)]

theorem due_append (s : Hub ι σ υ) (i : ι) (call : List (Delivery ι υ)) :
    (s.calls ++ [call]).flatMap (dueIn i) = s.due i ++ dueIn i call := by
  simp [due]

/-- A call that begins with nothing due to a subscriber from others. -/
theorem single_append {s : Hub ι σ υ} {i : ι} (h : s.due i = []) (call : List (Delivery ι υ)) :
    (s.calls ++ [call]).Pairwise fun c c' => dueIn i c = [] ∨ dueIn i c' = [] := by
  have hnone : ∀ c ∈ s.calls, dueIn i c = [] := List.flatMap_eq_nil_iff.mp h
  rw [List.pairwise_append]
  refine ⟨List.Pairwise.imp_of_mem (fun hc _ _ => .inl (hnone _ hc)) (List.pairwise_of_forall fun _ _ => trivial),
    List.pairwise_singleton _ _, fun c hc _ _ => .inl (hnone c hc)⟩

/-- A call that begins and does not concern a subscriber. -/
theorem Followed.append {s : Hub ι σ υ} {i : ι} (h : Followed R s i) {call : List (Delivery ι υ)}
    (hcall : dueIn i call = []) :
    ((s.calls ++ [call]).Pairwise fun c c' => dueIn i c = [] ∨ dueIn i c' = []) ∧
      (s.calls ++ [call]).flatMap (dueIn i) = s.due i := by
  refine ⟨?_, by rw [due_append, hcall, List.append_nil]⟩
  rw [List.pairwise_append]
  refine ⟨h.single, List.pairwise_singleton _ _, fun c _ c' hc' => .inr ?_⟩
  rw [List.mem_singleton.mp hc', hcall]

theorem Orderly.add {s : Hub ι σ υ} (h : Orderly R s) (hR : R.Faithful) {i : ι} (hm : i ∉ s.pruned → s.due i = []) :
    Orderly R (s.addSubscriber R i).1 := by
  unfold addSubscriber
  split
  · exact h
  · split
    · exact { h with followed := fun j hj => { h.followed j (mem_of_mem_pruned hj) with } }
    · next hi =>
      rw [if_pos h.replays]
      refine { h with followed := fun j hj => ?_ }
      by_cases hji : j = i
      · subst hji
        refine ⟨single_append (hm hi) _, ?_⟩
        obtain ⟨us, hus⟩ := h.kept
        show (Function.update s.received j [] j ++
          (s.calls ++ [(R.replay s.cache).map (Delivery.mk j)]).flatMap (dueIn j)).foldl R.keep R.empty = s.cache
        rw [due_append, hm hi, dueIn_replay, Function.update_self, hus]
        exact hR us
      · have hj' : j ∈ s.subscribers := by
          rcases List.mem_append.mp hj with hj | hj
          · exact mem_of_mem_pruned hj
          · exact absurd (List.mem_singleton.mp hj) hji
        have hf := h.followed j hj'
        have hother : dueIn j ((R.replay s.cache).map (Delivery.mk i)) = [] := dueIn_replay_other (Ne.symm hji) _
        obtain ⟨hsingle, hdue⟩ := hf.append hother
        refine ⟨hsingle, ?_⟩
        show (Function.update s.received i [] j ++
          (s.calls ++ [(R.replay s.cache).map (Delivery.mk i)]).flatMap (dueIn j)).foldl R.keep R.empty = s.cache
        rw [hdue, Function.update_of_ne hji]
        exact hf.view

theorem Orderly.publish {s : Hub ι σ υ} (h : Orderly R s) (hnodup : s.subscribers.Nodup) {u : υ}
    (hm : ∀ i ∈ s.pruned, s.due i = []) : Orderly R (s.publish R u).1 := by
  obtain ⟨us, hus⟩ := h.kept
  refine { replays := h.replays, kept := ⟨us ++ [u], by simp [Hub.publish, hus]⟩, followed := fun i hi => ?_ }
  have hf := h.followed i (mem_of_mem_pruned hi)
  refine ⟨single_append (hm i hi) _, ?_⟩
  show (s.received i ++ (s.calls ++ [s.pruned.map (Delivery.mk · u)]).flatMap (dueIn i)).foldl R.keep R.empty =
    R.keep s.cache u
  have hview := hf.view
  rw [hm i hi, List.append_nil] at hview
  rw [due_append, hm i hi, dueIn_publish (pruned_nodup hnodup), if_pos (show i ∈ s.pruned from hi), List.nil_append, List.foldl_append, hview]
  rfl

theorem Orderly.deliver {s : Hub ι σ υ} (h : Orderly R s) (call : Nat) : Orderly R (s.deliver call).1 := by
  unfold Hub.deliver
  split
  · next d rest hcall =>
    obtain ⟨pre, post, hcalls, hset⟩ := Lib.Calls.getElem?_split hcall
    refine { h with followed := fun i hi => ?_ }
    obtain ⟨hsingle, hview⟩ := h.followed i hi
    rw [hcalls, List.append_assoc, List.pairwise_append] at hsingle
    obtain ⟨hpre, hpost, hacross⟩ := hsingle
    rw [List.singleton_append, List.pairwise_cons] at hpost
    have hrest : dueIn i (d :: rest) = [] → dueIn i rest = [] := by
      rw [dueIn_cons]
      split <;> simp
    refine ⟨?_, ?_⟩
    · show (s.calls.set call rest).Pairwise _
      rw [hset, List.append_assoc, List.pairwise_append, List.singleton_append, List.pairwise_cons]
      refine ⟨hpre, ⟨fun c hc => (hpost.1 c hc).imp_left hrest, hpost.2⟩, fun c hc c' hc' => ?_⟩
      rcases List.mem_cons.mp hc' with rfl | hc'
      · exact (hacross c hc _ (by simp)).imp_right hrest
      · exact hacross c hc c' (by simp [hc'])
    · show (Function.update s.received d.subscriber (s.received d.subscriber ++ [d.update]) i ++
        (s.calls.set call rest).flatMap (dueIn i)).foldl R.keep R.empty = s.cache
      rw [due, hcalls] at hview
      rw [hset]
      by_cases hdi : d.subscriber = i
      · -- the other calls have nothing to tell it, so this update is the next one due
        have hd : dueIn i (d :: rest) = d.update :: dueIn i rest := by rw [dueIn_cons, if_pos hdi]
        have hpre' : pre.flatMap (dueIn i) = [] := List.flatMap_eq_nil_iff.mpr fun c hc =>
          (hacross c hc (d :: rest) (by simp)).resolve_right (by simp [hd])
        simp only [List.flatMap_append, List.flatMap_singleton, hd, hpre', List.nil_append] at hview
        simp only [List.flatMap_append, List.flatMap_singleton, hpre', List.nil_append]
        rw [hdi, Function.update_self, List.append_assoc]
        exact hview
      · have hd : dueIn i (d :: rest) = dueIn i rest := by rw [dueIn_cons, if_neg hdi]
        rw [Function.update_of_ne (Ne.symm hdi)]
        simpa [hd] using hview
  · exact h
  · exact h

theorem Orderly.step {s : Hub ι σ υ} (h : Orderly R s) (hR : R.Faithful) (hnodup : s.subscribers.Nodup)
    {e : Event ι υ} (hm : Marshalled s e) : Orderly R (s.step R e).1 := by
  cases e with
  | addSubscriber i => exact h.add hR hm
  | removeSubscriber i =>
      exact { h with followed := fun j hj => { h.followed j (mem_of_mem_pruned (List.mem_filter.mp hj).1) with } }
  | clearSubscribers => exact { h with followed := fun j hj => by cases hj }
  | publish u => exact h.publish hnodup hm
  | clearCache => exact hm.elim
  | deliver call => exact h.deliver call
  | expire i =>
      simp only [Hub.step]
      split
      · exact h
      · exact { h with followed := fun j hj => { h.followed j hj with } }

/-! ## Each call by itself -/

/-- The callbacks that a call has invoked. -/
def deliveredBy (call : Nat) (ns : List (Notice ι υ)) : List (Delivery ι υ) :=
  ns.filterMap fun n =>
    match n with
    | .delivered c d => if c = call then some d else none
    | .listed .. => none

/-- Each call invokes the callbacks that it has listed, in this order. -/
structure Invokes (ns : List (Notice ι υ)) (s : Hub ι σ υ) : Prop where
  listed : ∀ call ds, .listed call ds ∈ ns → ∃ rest, s.calls[call]? = some rest ∧ deliveredBy call ns ++ rest = ds
  later : ∀ call, s.calls.length ≤ call → deliveredBy call ns = [] ∧ ∀ ds, .listed call ds ∉ ns

omit [DecidableEq ι] in
theorem deliveredBy_append (call : Nat) (ns ns' : List (Notice ι υ)) :
    deliveredBy call (ns ++ ns') = deliveredBy call ns ++ deliveredBy call ns' := by
  simp [deliveredBy]

omit [DecidableEq ι] in
theorem Invokes.list {ns : List (Notice ι υ)} {s s' : Hub ι σ υ} (h : Invokes ns s) (ds : List (Delivery ι υ))
    (hs : s'.calls = s.calls ++ [ds]) : Invokes (ns ++ [.listed s.calls.length ds]) s' where
  listed call ds' hmem := by
    rw [deliveredBy_append, hs, show deliveredBy call [Notice.listed s.calls.length ds] = [] from rfl, List.append_nil]
    rcases List.mem_append.mp hmem with hmem | hmem
    · obtain ⟨rest, hrest, hds⟩ := h.listed call ds' hmem
      exact ⟨rest, by rw [List.getElem?_append_left (List.getElem?_eq_some_iff.mp hrest).1, hrest], hds⟩
    · cases List.mem_singleton.mp hmem
      exact ⟨ds, by simp, by rw [(h.later _ le_rfl).1, List.nil_append]⟩
  later call hcall := by
    rw [hs, List.length_append, List.length_singleton] at hcall
    obtain ⟨hnone, hunlisted⟩ := h.later call (by omega)
    refine ⟨by rw [deliveredBy_append, hnone]; rfl, fun ds' hmem => ?_⟩
    rcases List.mem_append.mp hmem with hmem | hmem
    · exact hunlisted ds' hmem
    · cases List.mem_singleton.mp hmem
      omega

omit [DecidableEq ι] in
theorem Invokes.deliver {ns : List (Notice ι υ)} {s s' : Hub ι σ υ} (h : Invokes ns s) {call : Nat}
    {d : Delivery ι υ} {rest : List (Delivery ι υ)} (hcall : s.calls[call]? = some (d :: rest))
    (hs : s'.calls = s.calls.set call rest) : Invokes (ns ++ [.delivered call d]) s' where
  listed call' ds hmem := by
    obtain ⟨rest', hrest', hds⟩ := h.listed call' ds (by simpa using hmem)
    rw [deliveredBy_append, hs]
    by_cases hc : call = call'
    · subst hc
      rw [hcall] at hrest'
      cases hrest'
      obtain ⟨hlt, -⟩ := List.getElem?_eq_some_iff.mp hcall
      exact ⟨rest, by simp [hlt], by simpa [deliveredBy] using hds⟩
    · exact ⟨rest', by rw [List.getElem?_set_ne hc, hrest'], by simpa [deliveredBy, hc] using hds⟩
  later call' hlater := by
    obtain ⟨hlt, -⟩ := List.getElem?_eq_some_iff.mp hcall
    rw [hs, List.length_set] at hlater
    obtain ⟨hnone, hunlisted⟩ := h.later call' hlater
    refine ⟨?_, fun ds hmem => hunlisted ds (by simpa using hmem)⟩
    have hc : call ≠ call' := by omega
    rw [deliveredBy_append, hnone]
    simp [deliveredBy, hc]

omit [DecidableEq ι] in
theorem Invokes.keep {ns : List (Notice ι υ)} {s s' : Hub ι σ υ} (h : Invokes ns s) (hs : s'.calls = s.calls) :
    Invokes (ns ++ []) s' := by
  rw [List.append_nil]
  exact ⟨by rw [hs]; exact h.listed, by rw [hs]; exact h.later⟩

theorem Invokes.step {ns : List (Notice ι υ)} {s : Hub ι σ υ} (h : Invokes ns s) (e : Event ι υ) :
    Invokes (ns ++ (s.step R e).2) (s.step R e).1 := by
  cases e with
  | addSubscriber i =>
      simp only [Hub.step, addSubscriber]
      split
      · exact h.keep rfl
      · split
        · exact h.keep rfl
        · exact h.list _ rfl
  | publish u => exact h.list _ rfl
  | deliver call =>
      simp only [Hub.step, Hub.deliver]
      split
      · next hcall => exact h.deliver hcall rfl
      · exact h.keep rfl
      · exact h.keep rfl
  | expire i =>
      simp only [Hub.step]
      split <;> exact h.keep rfl
  | removeSubscriber | clearSubscribers | clearCache => exact h.keep rfl

end Hub

end OptionX.Components
