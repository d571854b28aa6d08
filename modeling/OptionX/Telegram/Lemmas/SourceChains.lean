import OptionX.Lib.SharedIndex
import OptionX.Telegram.SignalBridge

/-!
# The keys of the source chains

A message may start or continue several chains, and only one key is kept for it. What each operation on the chains does to
the keys, and the conditions under which it is right.
-/

namespace OptionX.Telegram

open Lib (Covers)

/-- The source message of the step that a chain is at. -/
def SourceChainState.message (chain : SourceChainState) : Text := chain.parsed.sourceMessageIdentity

/-- An outcome replies to the source message of a chain. -/
def TelegramParsedOutcome.RepliesTo (outcome : TelegramParsedOutcome) (chain : SourceChainState) : Prop :=
  outcome.replyToMessageIdentity ≠ [] ∧ chain.message = outcome.replyToMessageIdentity

namespace SourceChains

variable {config : TelegramSignalBridgeConfig} {chains : SourceChains} {raw : TelegramRawMessage}
  {signal : TelegramParsedSignal} {outcome : TelegramParsedOutcome} {published : List TelegramParsedSignal} {key : Text}
  {chain next : SourceChainState} {nowMs : Int}

/-- The source message of every live chain has a key, and each key leads to a live chain of its message. -/
def Linked (chains : SourceChains) : Prop := Covers chains.groups SourceChainState.message chains.signalGroups

/-- No other live chain is at a step of the message of a chain. -/
def Alone (chains : SourceChains) (key : Text) (chain : SourceChainState) : Prop :=
  Covers.Alone chains.groups SourceChainState.message key chain

/-- The only chain that an outcome matches goes on waiting or ends, and a chain of another signal of the message stays when
the outcome names the symbol of a signal of the message. -/
structure OutcomeRight (published : List TelegramParsedSignal) (nowMs : Int) (outcome : TelegramParsedOutcome)
    (chains chains' : SourceChains) : Prop where
  matched : ∀ key chain, chains.groups.find? key = some chain → outcome.RepliesTo chain → fieldsMatch outcome chain →
    (∀ key' chain', chains.groups.find? key' = some chain' → outcome.RepliesTo chain' → fieldsMatch outcome chain' →
      key' = key) →
    chains'.groups.find? key =
      if outcome.result = chain.rule.continuationResult ∧ chain.step < chain.rule.maxStep then
        some { chain with waiting := true, deadline := nowMs + chain.rule.timeoutSeconds * 1000 }
      else none
  others : ∀ signal ∈ published, signal.symbol ≠ [] → outcome.symbol = signal.symbol →
    ∀ key chain, chains.groups.find? key = some chain → outcome.RepliesTo chain →
      chain.message = signal.sourceMessageIdentity → chain.parsed.symbol ≠ signal.symbol →
      chains'.groups.find? key = some chain

/-- The chain that was remembered last for the message fits an outcome and goes on, or it is the only one of the message and
the outcome names no other signal of the message. -/
def OutcomeFits (published : List TelegramParsedSignal) (outcome : TelegramParsedOutcome) (chains : SourceChains) : Prop :=
  ∀ key chain, chains.signalGroups.find? outcome.replyToMessageIdentity = some key →
    chains.groups.find? key = some chain → outcome.RepliesTo chain →
    fieldsMatch outcome chain ∧ goesOn outcome chain ∨
      chains.Alone key chain ∧ ∀ signal ∈ published, signal.symbol ≠ [] → outcome.symbol = signal.symbol →
        chain.message = signal.sourceMessageIdentity → chain.parsed.symbol = signal.symbol

/-- A chain that goes on with a signal of another message is the only one of its old message. -/
def SignalFits (config : TelegramSignalBridgeConfig) (raw : TelegramRawMessage) (signal : TelegramParsedSignal)
    (chains : SourceChains) : Prop :=
  ∀ key next chain, chains.toRemember config raw signal = some (key, next) → chains.groups.find? key = some chain →
    chain.message = signal.sourceMessageIdentity ∨ chains.Alone key chain

/-- The chains of one message expire together. -/
def ExpiryFits (nowMs : Int) (chains : SourceChains) : Prop :=
  ∀ key chain, chains.groups.find? key = some chain → isExpired nowMs chain →
    ∀ key' chain', chains.groups.find? key' = some chain' → chain'.message = chain.message → isExpired nowMs chain'

theorem linked_empty : Linked {} := Covers.empty

/-! ## Signals -/

theorem toRemember_parsed (h : chains.toRemember config raw signal = some (key, next)) : next.parsed = signal := by
  simp only [toRemember, Option.bind_eq_bind, Option.bind_eq_some_iff] at h
  obtain ⟨rule, -, step, -, h⟩ := h
  split at h
  · cases h
  · split at h
    · cases h
    · cases h
      rfl

theorem linked_remember (h : chains.Linked) :
    (chains.remember config raw signal).Linked ↔ chains.SignalFits config raw signal := by
  unfold SignalFits SourceChains.remember
  cases htodo : chains.toRemember config raw signal with
  | none => simp [h]
  | some todo =>
    obtain ⟨key, next⟩ := todo
    have hmessage : next.message = signal.sourceMessageIdentity := by
      rw [SourceChainState.message, toRemember_parsed htodo]
    rw [← hmessage]
    cases hkey : chains.groups.find? key with
    | none =>
      simp only [hkey]
      refine iff_of_true (Covers.insert h hkey) ?_
      rintro key' next' chain ⟨⟩ hchain
      rw [hkey] at hchain
      cases hchain
    | some existing =>
      simp only [hkey]
      refine Iff.trans (Covers.move_iff h hkey) ⟨?_, ?_⟩
      · rintro hfits key' next' chain ⟨⟩ hchain
        obtain rfl := Option.some.inj (hkey.symm.trans hchain)
        exact hfits
      · intro hfits
        exact hfits key next existing rfl hkey

/-! ## Expiry -/

theorem expire_eq (entries : List (Text × SourceChainState)) :
    entries.foldl (fun chains entry => chains.remove entry.1 entry.2) chains =
      { groups := chains.groups.eraseAll (entries.map Prod.fst)
        signalGroups := chains.signalGroups.eraseAll (entries.map fun entry => entry.2.message) } := by
  induction entries generalizing chains with
  | nil => rfl
  | cons entry entries ih =>
    rw [List.foldl_cons, ih]
    rfl

theorem linked_expire (h : chains.Linked) : (chains.expire nowMs).Linked ↔ chains.ExpiryFits nowMs := by
  have hentry : ∀ key chain, (key, chain) ∈ chains.expiredEntries nowMs ↔
      chains.groups.find? key = some chain ∧ isExpired nowMs chain := by
    intro key chain
    rw [expiredEntries, List.mem_filter, Lib.OrderedMap.find?_eq_some]
  rw [SourceChains.expire, expire_eq]
  have hthere : ∀ entry ∈ chains.expiredEntries nowMs, chains.groups.find? entry.1 = some entry.2 :=
    fun entry hmem => ((hentry _ _).mp hmem).1
  refine Iff.trans (Covers.eraseAll_iff h hthere) ⟨?_, ?_⟩
  · intro htogether key chain hkey hexpired key' chain' hkey' hmessage
    have hmem := htogether (key, chain) ((hentry _ _).mpr ⟨hkey, hexpired⟩) key' chain' hkey' hmessage
    exact ((hentry _ _).mp hmem).2
  · intro hfits entry hmem key' chain' hkey' hmessage
    obtain ⟨hkey, hexpired⟩ := (hentry _ _).mp hmem
    exact (hentry _ _).mpr ⟨hkey', hfits _ _ hkey hexpired key' chain' hkey' hmessage⟩

/-! ## Outcomes -/

/-- An outcome finds the chain that was remembered last for the message that it replies to. -/
theorem processOutcome_eq (hfound : chains.signalGroups.find? outcome.replyToMessageIdentity = some key)
    (hkey : chains.groups.find? key = some chain) (hreplies : outcome.RepliesTo chain) :
    chains.processOutcome nowMs outcome =
      if fieldsMatch outcome chain ∧ goesOn outcome chain then
        { chains with groups := chains.groups.assign key (await nowMs chain) }
      else chains.remove key chain := by
  obtain ⟨hne, hmessage⟩ := hreplies
  have hsame : chain.parsed.sourceMessageIdentity = outcome.replyToMessageIdentity := hmessage
  cases hfields : fieldsMatch outcome chain <;> cases hgoes : goesOn outcome chain <;>
    simp [processOutcome, hne, hfound, hkey, hsame, hfields, hgoes]

theorem exists_found (h : chains.Linked) (hkey : chains.groups.find? key = some chain) (hreplies : outcome.RepliesTo chain) :
    ∃ key' chain', chains.signalGroups.find? outcome.replyToMessageIdentity = some key' ∧
      chains.groups.find? key' = some chain' ∧ outcome.RepliesTo chain' := by
  obtain ⟨key', hfound⟩ := h.bound key chain hkey
  rw [hreplies.2] at hfound
  obtain ⟨chain', hkey', hmessage⟩ := h.leads _ key' hfound
  exact ⟨key', chain', hfound, hkey', hreplies.1, hmessage⟩

theorem processOutcome_eq_self (h : chains.Linked)
    (hnone : ∀ key chain, chains.groups.find? key = some chain → ¬ outcome.RepliesTo chain) :
    chains.processOutcome nowMs outcome = chains := by
  unfold processOutcome
  split
  · rfl
  · next hne =>
    cases hfound : chains.signalGroups.find? outcome.replyToMessageIdentity with
    | none => rfl
    | some key =>
      obtain ⟨chain, hkey, hmessage⟩ := h.leads _ key hfound
      exact absurd ⟨hne, hmessage⟩ (hnone key chain hkey)

theorem goesOn_iff : goesOn outcome chain ↔
    outcome.result = chain.rule.continuationResult ∧ chain.step < chain.rule.maxStep := by
  simp [goesOn]

theorem symbol_eq_of_fieldsMatch (h : fieldsMatch outcome chain) (hne : outcome.symbol ≠ []) :
    chain.parsed.symbol = outcome.symbol := by
  simp only [fieldsMatch, Bool.and_eq_true, Bool.or_eq_true, decide_eq_true_eq] at h
  exact (h.1.resolve_left hne).symm

theorem outcomeRight_await (hkey : chains.groups.find? key = some chain) (hreplies : outcome.RepliesTo chain)
    (hfields : fieldsMatch outcome chain) (hgoes : goesOn outcome chain) :
    OutcomeRight published nowMs outcome chains
      { chains with groups := chains.groups.assign key (await nowMs chain) } where
  matched key' chain' hkey' _ _ honly := by
    obtain rfl := honly key chain hkey hreplies hfields
    obtain rfl := Option.some.inj (hkey.symm.trans hkey')
    rw [if_pos (goesOn_iff.mp hgoes), Lib.OrderedMap.find?_assign, if_pos rfl]
    rfl
  others signal _ hne hsymbol key' chain' hkey' _ _ hother := by
    rw [Lib.OrderedMap.find?_assign, if_neg]
    · exact hkey'
    · rintro rfl
      obtain rfl := Option.some.inj (hkey.symm.trans hkey')
      exact hother ((symbol_eq_of_fieldsMatch hfields (hsymbol ▸ hne)).trans hsymbol)

/-- Where the only chain of the message goes, what is left to ask is that no signal of another symbol was named. -/
theorem outcomeRight_remove (hkey : chains.groups.find? key = some chain) (hreplies : outcome.RepliesTo chain)
    (hgoes : ¬ (fieldsMatch outcome chain ∧ goesOn outcome chain)) (halone : chains.Alone key chain) :
    OutcomeRight published nowMs outcome chains (chains.remove key chain) ↔
      ∀ signal ∈ published, signal.symbol ≠ [] → outcome.symbol = signal.symbol →
        chain.message = signal.sourceMessageIdentity → chain.parsed.symbol = signal.symbol := by
  have hgone : (chains.remove key chain).groups.find? key = none := by simp [SourceChains.remove]
  constructor
  · intro hright signal hsignal hne hsymbol hmessage
    by_contra hother
    have hstays := hright.others signal hsignal hne hsymbol key chain hkey hreplies hmessage hother
    rw [hgone] at hstays
    cases hstays
  · intro hnames
    constructor
    · intro key' chain' hkey' hreplies' hfields _
      obtain rfl := halone key' chain' hkey' (hreplies'.2.trans hreplies.2.symm)
      obtain rfl := Option.some.inj (hkey.symm.trans hkey')
      rw [hgone, if_neg fun hresult => hgoes ⟨hfields, goesOn_iff.mpr hresult⟩]
    · intro signal hsignal hne hsymbol key' chain' hkey' hreplies' hmessage hother
      obtain rfl := halone key' chain' hkey' (hreplies'.2.trans hreplies.2.symm)
      obtain rfl := Option.some.inj (hkey.symm.trans hkey')
      exact absurd (hnames signal hsignal hne hsymbol hmessage) hother

theorem outcome_right_iff (h : chains.Linked) :
    (chains.processOutcome nowMs outcome).Linked ∧
        OutcomeRight published nowMs outcome chains (chains.processOutcome nowMs outcome) ↔
      chains.OutcomeFits published outcome := by
  by_cases hreply : ∃ key chain, chains.groups.find? key = some chain ∧ outcome.RepliesTo chain
  · obtain ⟨_, _, hlive, hreplied⟩ := hreply
    obtain ⟨key, chain, hfound, hkey, hreplies⟩ := exists_found h hlive hreplied
    have hunique : ∀ {key' chain'}, chains.signalGroups.find? outcome.replyToMessageIdentity = some key' →
        chains.groups.find? key' = some chain' → key' = key ∧ chain' = chain := by
      intro key' chain' hfound' hkey'
      obtain rfl := Option.some.inj (hfound.symm.trans hfound')
      exact ⟨rfl, Option.some.inj (hkey'.symm.trans hkey)⟩
    rw [processOutcome_eq hfound hkey hreplies]
    by_cases hgoes : fieldsMatch outcome chain ∧ goesOn outcome chain
    · rw [if_pos hgoes]
      constructor
      · intro _ key' chain' hfound' hkey' _
        obtain ⟨rfl, rfl⟩ := hunique hfound' hkey'
        exact Or.inl hgoes
      · exact fun _ => ⟨Covers.replace h hkey rfl, outcomeRight_await hkey hreplies hgoes.1 hgoes.2⟩
    · rw [if_neg hgoes]
      have hlinked : (chains.remove key chain).Linked ↔ chains.Alone key chain := Covers.erase_iff h hkey
      rw [hlinked]
      constructor
      · rintro ⟨halone, hright⟩ key' chain' hfound' hkey' _
        obtain ⟨rfl, rfl⟩ := hunique hfound' hkey'
        exact Or.inr ⟨halone, (outcomeRight_remove hkey hreplies hgoes halone).mp hright⟩
      · intro hfits
        obtain ⟨halone, hnames⟩ := (hfits key chain hfound hkey hreplies).resolve_left hgoes
        exact ⟨halone, (outcomeRight_remove hkey hreplies hgoes halone).mpr hnames⟩
  · have hnone : ∀ key chain, chains.groups.find? key = some chain → ¬ outcome.RepliesTo chain :=
      fun key chain hkey hreplies => hreply ⟨key, chain, hkey, hreplies⟩
    rw [processOutcome_eq_self h hnone]
    constructor
    · exact fun _ key chain _ hkey hreplies => absurd hreplies (hnone key chain hkey)
    · refine fun _ => ⟨h, ?_, ?_⟩
      · exact fun key chain hkey hreplies => absurd hreplies (hnone key chain hkey)
      · exact fun _ _ _ _ key chain hkey hreplies => absurd hreplies (hnone key chain hkey)

end SourceChains

end OptionX.Telegram
