import OptionX.BotBinary.Bridge
import OptionX.BotBinary.Lemmas.Protocol

/-!
# Runs of the BotBinary bridge

What one event does to the keys that are reserved and to the cache of keys, and from it what holds of a whole run, in whatever
order the threads go on.
-/

namespace OptionX.BotBinary

open Lib (Frame RecentKeys Step)
open Lib.Calls (stageOf goOn)
open Lib.RecentKeys (Coherent Follows Remembered Spaced)
open Lib.Run (exec trace stepOf)
open TradingView (CallResult Text text)

variable {T F : Type} [DecidableEq T] {config : BotBinaryBridgeConfig} {amounts : Amounts F} {s s' : Bridge T F} {t : T}
  {key : Text} {answer : Answer} {capacity : Nat}

/-! ## The keys that are reserved -/

/-- The key of a stage, if there is a stage and it has one. -/
def stageKeys (stage : Option (Stage F)) : Multiset Text := (stage.bind Stage.key?).toList

/-- The keys that the commands in progress have reserved. -/
def heldKeys (calls : List (Frame T (Stage F))) : Multiset Text := (calls.map fun f => stageKeys (some f.stage)).sum

theorem heldKeys_setStage (t : T) (stage : Option (Stage F)) (calls : List (Frame T (Stage F))) :
    heldKeys (setStage t stage calls) + stageKeys (stageOf t calls) = heldKeys calls + stageKeys stage := by
  have hone : ((stage.map (Frame.mk t)).toList.map fun f => stageKeys (some f.stage)).sum = stageKeys stage := by
    cases stage <;> simp [stageKeys]
  unfold setStage heldKeys
  cases h : stageOf t calls with
  | none =>
      simp only [Option.isSome_none, Bool.false_eq_true, if_false, List.map_append, List.sum_append, hone]
      simp [stageKeys]
  | some old =>
      obtain ⟨pre, post, rfl, hgo⟩ := Lib.Calls.split h
      simp only [Option.isSome_some, if_true, hgo, List.map_append, List.map_cons, List.sum_append, List.sum_cons, hone]
      ac_rfl

/-! ## One event -/

/-- What an event does to the reserved keys and to their cache, and what it answers about them. -/
inductive Effect (capacity : Nat) (s s' : Bridge T F) : Option Text → Option Text → Prop where
  | same (hkeys : heldKeys s'.calls = heldKeys s.calls) (hcache : s'.state.dedupe = s.state.dedupe) :
      Effect capacity s s' none none
  | reserve {key : Text} (hkeys : heldKeys s'.calls = key ::ₘ heldKeys s.calls) (hnew : key ∉ s.state.dedupe.keys)
      (hcache : s'.state.dedupe = (s.state.dedupe.remember capacity key).1) : Effect capacity s s' (some key) none
  | forget {key : Text} (hkeys : heldKeys s.calls = key ::ₘ heldKeys s'.calls)
      (hcache : s'.state = forgetKey s.state key) : Effect capacity s s' none none
  | handled {key : Text} (hkeys : heldKeys s.calls = key ::ₘ heldKeys s'.calls)
      (hcache : s'.state.dedupe = s.state.dedupe) : Effect capacity s s' none (some key)

/-- No key is empty. -/
theorem dedupeKeyForCommand_ne (command : BotBinaryParsedCommand) (rawValue : Text) :
    dedupeKeyForCommand command rawValue ≠ [] := by
  unfold dedupeKeyForCommand
  split <;> simp [text]

theorem commandSignal_key {rawValue : Text} {fileSignal : Bool} {signal : TradeSignal F}
    (h : commandSignal config amounts rawValue fileSignal = .ok (key, signal)) : key ≠ [] := by
  unfold commandSignal at h
  split at h
  · cases h
  · next hconverted =>
      unfold convertRawValue at hconverted
      obtain ⟨command, -, hcommand⟩ := bind_eq_ok.mp hconverted
      obtain ⟨converted', -, hkey⟩ := bind_eq_ok.mp hcommand
      cases hkey
      split at h
      · cases h
      · cases h
        exact dedupeKeyForCommand_ne command rawValue

theorem Effect.of_setStage {stage stage' : Option (Stage F)} (hstage : stageOf t s.calls = stage)
    (hkeys : stageKeys stage' = stageKeys stage) : Effect capacity s (s.set t stage') none none := by
  have h := heldKeys_setStage t stage' s.calls
  rw [hstage, hkeys] at h
  exact .same (add_right_cancel h) rfl

theorem dispatchRawValue_effect {rawValue : Text} {fileSignal : Bool} (hstage : stageKeys (stageOf t s.calls) = 0) :
    Effect config.dedupeCacheSize s (dispatchRawValue config amounts s t rawValue fileSignal).1
      (dispatchRawValue config amounts s t rawValue fileSignal).2.reserved
      (dispatchRawValue config amounts s t rawValue fileSignal).2.handled := by
  have hset : ∀ stage, heldKeys (setStage t stage s.calls) = heldKeys s.calls + stageKeys stage := by
    intro stage
    have h := heldKeys_setStage t stage s.calls
    rwa [hstage, add_zero] at h
  unfold dispatchRawValue
  split
  · exact .same (by simp [Bridge.set, hset, stageKeys]) rfl
  · next key signal hcommand =>
    by_cases hknown : key ∈ s.state.dedupe.keys
    · simp only [rememberKey, if_neg (commandSignal_key hcommand), RecentKeys.remember_known hknown]
      exact .same (by simp [Bridge.set, hset, stageKeys]) rfl
    · simp only [rememberKey, if_neg (commandSignal_key hcommand), RecentKeys.remember_new hknown]
      refine .reserve ?_ hknown ?_
      · simp only [Bridge.set, if_true, hset, stageKeys]
        simp [Stage.key?, add_comm]
      · rw [RecentKeys.remember_new hknown]
        rfl

theorem stageKeys_key {stage : Stage F} (h : stage.key? = some key) : stageKeys (some stage) = {key} := by
  simp [stageKeys, h]

theorem slotsRead_key (key : Text) (signal : TradeSignal F) (allocator callback : Bool) :
    (slotsRead key signal allocator callback).key? = some key := by
  cases allocator <;> cases callback <;> rfl

theorem idAllocated_key (key : Text) (signal : TradeSignal F) (result : CallResult Nat) :
    (idAllocated key signal result).key? = some key := by
  cases result with
  | returned signalId => cases signalId <;> rfl
  | threw message => rfl
  | threwUnknown => rfl

/-- A command that ends gives up its key. -/
theorem heldKeys_end {stage : Stage F} (hstage : stageOf t s.calls = some stage) (hkey : stage.key? = some key) :
    heldKeys s.calls = key ::ₘ heldKeys (s.set t none).calls := by
  have h := heldKeys_setStage t none s.calls
  rw [hstage, stageKeys_key hkey] at h
  calc heldKeys s.calls = heldKeys s.calls + stageKeys (none : Option (Stage F)) := (add_zero _).symm
    _ = heldKeys (setStage t none s.calls) + {key} := h.symm
    _ = key ::ₘ heldKeys (s.set t none).calls := Multiset.add_comm _ _

theorem callbackReturned_effect {signal : TradeSignal F} {signalId : Nat} {result : CallResult Unit}
    (hstage : stageOf t s.calls = some (.calling key signal signalId)) :
    Effect capacity s (callbackReturned s t key result).1 (callbackReturned s t key result).2.reserved
      (callbackReturned s t key result).2.handled := by
  cases result with
  | returned u => exact .handled (heldKeys_end hstage rfl) rfl
  | threw message => exact .of_setStage hstage rfl
  | threwUnknown => exact .handled (heldKeys_end hstage rfl) rfl

theorem handleHttpRequest_effect {query : Text} (hstage : stageOf t s.calls = none) :
    Effect config.dedupeCacheSize s (handleHttpRequest config amounts s t query).1
      (handleHttpRequest config amounts s t query).2.reserved
      (handleHttpRequest config amounts s t query).2.handled := by
  unfold handleHttpRequest
  split
  · exact .same rfl rfl
  · split
    · exact .same rfl rfl
    · exact dispatchRawValue_effect (by rw [hstage]; rfl)

theorem pollFile_effect {fileName : Text} (hstage : stageOf t s.calls = none) :
    Effect capacity s (pollFile config s t fileName).1 (pollFile config s t fileName).2.reserved
      (pollFile config s t fileName).2.handled := by
  by_cases hknown : fileName ∈ s.state.seenFiles.keys
  · simp only [pollFile, rememberFileSeen, RecentKeys.remember_known hknown]
    exact .same rfl rfl
  · have hset := heldKeys_setStage t (some (.seen fileName)) s.calls
    rw [hstage] at hset
    simp only [pollFile, rememberFileSeen, RecentKeys.remember_new hknown]
    exact .same (by simpa [Bridge.set, stageKeys, Stage.key?] using hset) rfl

/-- One event does one of four things. -/
theorem step_effect (s : Bridge T F) (e : Event T) :
    Effect config.dedupeCacheSize s (step config amounts s e).1 (step config amounts s e).2.reserved
      (step config amounts s e).2.handled := by
  cases e with
  | request t query =>
      cases hstage : stageOf t s.calls with
      | none => simpa only [step, hstage] using handleHttpRequest_effect hstage
      | some stage => simpa only [step, hstage] using Effect.same rfl rfl
  | file t fileName =>
      cases hstage : stageOf t s.calls with
      | none => simpa only [step, hstage] using pollFile_effect hstage
      | some stage => simpa only [step, hstage] using Effect.same rfl rfl
  | dispatchFile t =>
      simp only [step]
      split
      · next fileName hstage => exact dispatchRawValue_effect (by rw [hstage]; rfl)
      · exact .same rfl rfl
  | readSlots t allocator callback =>
      simp only [step]
      split
      · next key signal hstage =>
        exact .of_setStage hstage (by rw [stageKeys_key (slotsRead_key _ _ _ _)]; rfl)
      · exact .same rfl rfl
  | allocated t result =>
      simp only [step]
      split
      · next key signal hstage =>
        exact .of_setStage hstage (by rw [stageKeys_key (idAllocated_key _ _ _)]; rfl)
      · exact .same rfl rfl
  | called t result =>
      simp only [step]
      split
      · next key signal signalId hstage => exact callbackReturned_effect hstage
      · exact .same rfl rfl
  | forget t =>
      simp only [step]
      split
      · next key reply hstage =>
        exact .forget (heldKeys_end hstage rfl) rfl
      · exact .same rfl rfl

/-- The poll remembers a file that it sees for the first time, and nothing else touches that cache. -/
theorem step_seen (s : Bridge T F) (e : Event T) :
    (step config amounts s e).2.seen = none ∧ (step config amounts s e).1.state.seenFiles = s.state.seenFiles ∨
      ∃ fileName, (step config amounts s e).2.seen = some fileName ∧ fileName ∉ s.state.seenFiles.keys ∧
        (step config amounts s e).1.state.seenFiles = (s.state.seenFiles.remember config.dedupeCacheSize fileName).1 := by
  have hremember : ∀ key, (rememberKey s.state key config.dedupeCacheSize).1.seenFiles = s.state.seenFiles := by
    intro key
    unfold rememberKey
    split <;> rfl
  have hdispatch : ∀ t rawValue fileSignal,
      (dispatchRawValue config amounts s t rawValue fileSignal).2.seen = none ∧
        (dispatchRawValue config amounts s t rawValue fileSignal).1.state.seenFiles = s.state.seenFiles := by
    intro t rawValue fileSignal
    unfold dispatchRawValue
    split
    · exact ⟨rfl, rfl⟩
    · next key signal hcommand =>
      cases hfresh : (rememberKey s.state key config.dedupeCacheSize).2 <;> simp [hfresh, hremember]
  cases e with
  | request t query =>
      left
      simp only [step]
      split
      · unfold handleHttpRequest
        split
        · exact ⟨rfl, rfl⟩
        · split
          · exact ⟨rfl, rfl⟩
          · exact hdispatch ..
      · exact ⟨rfl, rfl⟩
  | file t fileName =>
      simp only [step]
      split
      · by_cases hknown : fileName ∈ s.state.seenFiles.keys
        · simp only [pollFile, rememberFileSeen, RecentKeys.remember_known hknown]
          exact .inl ⟨rfl, rfl⟩
        · simp only [pollFile, rememberFileSeen, RecentKeys.remember_new hknown]
          exact .inr ⟨fileName, rfl, hknown, (congrArg Prod.fst (RecentKeys.remember_new hknown)).symm⟩
      · exact .inl ⟨rfl, rfl⟩
  | dispatchFile t =>
      left
      simp only [step]
      split
      · exact hdispatch ..
      · exact ⟨rfl, rfl⟩
  | readSlots t allocator callback =>
      left
      simp only [step]
      split <;> exact ⟨rfl, rfl⟩
  | allocated t result =>
      left
      simp only [step]
      split <;> exact ⟨rfl, rfl⟩
  | called t result =>
      left
      simp only [step]
      split
      · cases result <;> exact ⟨rfl, rfl⟩
      · exact ⟨rfl, rfl⟩
  | forget t =>
      left
      simp only [step, forgetKey]
      split
      · split_ifs <;> exact ⟨rfl, rfl⟩
      · exact ⟨rfl, rfl⟩

/-! ## Runs -/

/-- The keys that were newly reserved. -/
def reservations (steps : List (Step (Bridge T F) (Event T) Answer)) : List Text :=
  steps.filterMap fun step => step.answer.reserved

/-- The keys whose callback came back other than by an exception that is caught. -/
def handledKeys (steps : List (Step (Bridge T F) (Event T) Answer)) : List Text :=
  steps.filterMap fun step => step.answer.handled

/-- The files that were newly seen. -/
def seenNames (steps : List (Step (Bridge T F) (Event T) Answer)) : List Text :=
  steps.filterMap fun step => step.answer.seen

/-- Between one reservation of a key and the next there are so many different others. -/
def Crowded (capacity : Nat) (key : Text) (reserved : List Text) : Prop :=
  ∃ before between after, reserved = before ++ key :: (between ++ key :: after) ∧ key ∉ between ∧
    capacity ≤ between.toFinset.card

theorem Crowded.append {reserved : List Text} (h : Crowded capacity key reserved) (more : List Text) :
    Crowded capacity key (reserved ++ more) := by
  obtain ⟨before, between, after, rfl, hkey, hmany⟩ := h
  exact ⟨before, between, after ++ more, by simp, hkey, hmany⟩

omit [DecidableEq T] in
theorem Effect.coherent {reserved handled : Option Text} (h : Effect capacity s s' reserved handled)
    (hcoherent : Coherent capacity s.state.dedupe) : Coherent capacity s'.state.dedupe := by
  cases h with
  | same hkeys hcache => rwa [hcache]
  | reserve hkeys hnew hcache =>
      rw [hcache]
      exact hcoherent.remember _
  | forget hkeys hcache =>
      rw [hcache, forgetKey]
      split
      · exact hcoherent
      · exact hcoherent.forget _
  | handled hkeys hcache => rwa [hcache]

variable {reserved handled : List Text}

/-- At most one command has the key and was not undone, of those in progress and those that were handled; where there is
one, the key was remembered and can only have been evicted by newer ones. -/
def Single (capacity : Nat) (key : Text) (s : Bridge T F) (reserved handled : List Text) : Prop :=
  (heldKeys s.calls).count key + handled.count key = 0 ∨
    (heldKeys s.calls).count key + handled.count key = 1 ∧
      ∃ before between, reserved = before ++ key :: between ∧ key ∉ between ∧
        Remembered capacity s.state.dedupe key between

omit [DecidableEq T] in
theorem Single.le_one (h : Single capacity key s reserved handled) :
    (heldKeys s.calls).count key + handled.count key ≤ 1 := by
  rcases h with hnone | ⟨hone, -⟩
  · exact hnone.trans_le (Nat.zero_le _)
  · exact hone.le

omit [DecidableEq T] in
/-- Another key is reserved, or the one key for the first time since it was evicted. -/
theorem Single.reserve {new : Text} (h : Single capacity key s reserved handled)
    (hcoherent : Coherent capacity s.state.dedupe) (hkeys : heldKeys s'.calls = new ::ₘ heldKeys s.calls)
    (hnew : new ∉ s.state.dedupe.keys) (hcache : s'.state.dedupe = (s.state.dedupe.remember capacity new).1) :
    Crowded capacity key (reserved ++ [new]) ∨ Single capacity key s' (reserved ++ [new]) handled := by
  unfold Single
  rw [hkeys, hcache, Multiset.count_cons]
  by_cases hkey : key = new
  · subst hkey
    rcases h with hnone | ⟨-, before, between, rfl, hbetween, hremembered⟩
    · refine .inr (.inr ⟨?_, reserved, [], rfl, List.not_mem_nil, Remembered.self capacity hnew⟩)
      rw [if_pos rfl]
      omega
    · exact .inl ⟨before, between, [], by simp, hbetween, hremembered.evicted hcoherent hnew⟩
  · rw [if_neg hkey, Nat.add_zero]
    rcases h with hnone | ⟨hone, before, between, rfl, hbetween, hremembered⟩
    · exact .inr (.inl hnone)
    · refine .inr (.inr ⟨hone, before, between ++ [new], by simp, ?_, hremembered.remember hcoherent hnew⟩)
      simp [hbetween, hkey]

omit [DecidableEq T] in
/-- A command gives up its key. -/
theorem Single.forget {old : Text} (h : Single capacity key s reserved handled)
    (hkeys : heldKeys s.calls = old ::ₘ heldKeys s'.calls) (hcache : s'.state = forgetKey s.state old) :
    Single capacity key s' reserved handled := by
  unfold Single at h ⊢
  rw [hkeys, Multiset.count_cons] at h
  by_cases hkey : key = old
  · rw [if_pos hkey] at h
    left
    rcases h with hnone | ⟨hone, -⟩ <;> omega
  · rw [if_neg hkey, Nat.add_zero] at h
    refine h.imp_right fun ⟨hone, before, between, hreserved, hbetween, hremembered⟩ =>
      ⟨hone, before, between, hreserved, hbetween, ?_⟩
    rw [hcache, forgetKey]
    split
    · exact hremembered
    · exact hremembered.forget (Ne.symm hkey)

omit [DecidableEq T] in
/-- A command keeps its key for good. -/
theorem Single.handle {old : Text} (h : Single capacity key s reserved handled)
    (hkeys : heldKeys s.calls = old ::ₘ heldKeys s'.calls) (hcache : s'.state.dedupe = s.state.dedupe) :
    Single capacity key s' reserved (handled ++ [old]) := by
  have hcount : (heldKeys s'.calls).count key + (handled ++ [old]).count key =
      (heldKeys s.calls).count key + handled.count key := by
    rw [hkeys, Multiset.count_cons, List.count_append, List.count_singleton]
    by_cases hkey : key = old
    · simp [hkey]
      omega
    · simp [hkey, Ne.symm hkey]
  unfold Single at h ⊢
  rwa [hcount, hcache]

omit [DecidableEq T] in
theorem Effect.single {new done : Option Text} (heffect : Effect capacity s s' new done)
    (hcoherent : Coherent capacity s.state.dedupe) (h : Single capacity key s reserved handled) :
    Crowded capacity key (reserved ++ new.toList) ∨
      Single capacity key s' (reserved ++ new.toList) (handled ++ done.toList) := by
  cases heffect with
  | same hkeys hcache =>
      rw [Single, ← hkeys, ← hcache] at h
      exact .inr (by simpa [Single] using h)
  | reserve hkeys hnew hcache => simpa using h.reserve hcoherent hkeys hnew hcache
  | forget hkeys hcache => exact .inr (by simpa using h.forget hkeys hcache)
  | handled hkeys hcache => exact .inr (by simpa using h.handle hkeys hcache)

/-- What holds of the reservations and of the cache of keys after a run. -/
theorem run_single (config : BotBinaryBridgeConfig) (amounts : Amounts F) (es : List (Event T)) (key : Text) :
    let s := exec (step config amounts) {} es
    let steps := trace (step config amounts) {} es
    Coherent config.dedupeCacheSize s.state.dedupe ∧
      (Crowded config.dedupeCacheSize key (reservations steps) ∨
        Single config.dedupeCacheSize key s (reservations steps) (handledKeys steps)) := by
  refine Lib.Run.history_induct' (H := fun steps (s : Bridge T F) => Coherent config.dedupeCacheSize s.state.dedupe ∧
    (Crowded config.dedupeCacheSize key (reservations steps) ∨
      Single config.dedupeCacheSize key s (reservations steps) (handledKeys steps))) ?_ ?_ es
  · intro steps s e ⟨hcoherent, h⟩
    have heffect := @step_effect T F _ config amounts s e
    have hreserved : reservations (steps ++ [stepOf (step config amounts) s e]) =
        reservations steps ++ (step config amounts s e).2.reserved.toList := by
      cases hnew : (step config amounts s e).2.reserved <;> simp [reservations, hnew]
    have hhandled : handledKeys (steps ++ [stepOf (step config amounts) s e]) =
        handledKeys steps ++ (step config amounts s e).2.handled.toList := by
      cases hdone : (step config amounts s e).2.handled <;> simp [handledKeys, hdone]
    refine ⟨heffect.coherent hcoherent, ?_⟩
    rw [hreserved, hhandled]
    rcases h with hcrowded | hsingle
    · exact .inl (hcrowded.append _)
    · exact heffect.single hcoherent hsingle
  · exact ⟨.empty, .inr (.inl rfl)⟩

/-- What holds of the files that were seen. -/
theorem run_seen (config : BotBinaryBridgeConfig) (amounts : Amounts F) (es : List (Event T)) :
    let s := exec (step config amounts) {} es
    let steps := trace (step config amounts) {} es
    Coherent config.dedupeCacheSize s.state.seenFiles ∧ Follows config.dedupeCacheSize s.state.seenFiles (seenNames steps) ∧
      Spaced config.dedupeCacheSize (seenNames steps) := by
  refine Lib.Run.history_induct' (H := fun steps (s : Bridge T F) => Coherent config.dedupeCacheSize s.state.seenFiles ∧
    Follows config.dedupeCacheSize s.state.seenFiles (seenNames steps) ∧
      Spaced config.dedupeCacheSize (seenNames steps)) ?_ ⟨.empty, .empty, .nil _⟩ es
  intro steps s e ⟨hcoherent, hfollows, hspaced⟩
  rcases @step_seen T F _ config amounts s e with ⟨hnone, hsame⟩ | ⟨fileName, hsome, hnew, hremember⟩
  · have hnames : seenNames (steps ++ [stepOf (step config amounts) s e]) = seenNames steps := by
      simp [seenNames, hnone]
    rw [hnames, hsame]
    exact ⟨hcoherent, hfollows, hspaced⟩
  · have hnames : seenNames (steps ++ [stepOf (step config amounts) s e]) = seenNames steps ++ [fileName] := by
      simp [seenNames, hsome]
    rw [hnames, hremember]
    refine ⟨hcoherent.remember _, hfollows.remember hnew, hspaced.snoc ?_⟩
    rw [← hfollows]
    exact fun hmem => hnew (hcoherent.mem_iff.mpr hmem)

end OptionX.BotBinary
