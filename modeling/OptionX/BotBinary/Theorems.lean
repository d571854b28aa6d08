import OptionX.BotBinary.Lemmas.Bridge
import OptionX.BotBinary.Lemmas.Requests

/-!
# Theorems about BotBinary commands and the BotBinary bridge

- `prepared_readBack`: what is prepared is read back from the file name, from the request value and from the URL.
- `tradeRequest_survives`: a trade request that was prepared and is read back is the signal for the same trade.
- `command_handled_once`: across all threads a key is handled once, until so many other keys pushed it out of the cache.
- `files_spaced`: the poll takes up a file again only after so many other files, and both caches stay coherent.
-/

namespace OptionX.BotBinary

open Lib.RecentKeys (Coherent Spaced)
open Lib.Run (exec trace)
open TradingView (Text text isDigit isAlnum)

/-- A call on EURUSD for five minutes, with a suffix that has the separator in it. -/
def eurusdCall : BotBinaryTradeCommand where
  symbol := text "frxEURUSD"
  orderType := .buy
  amountValue := text "10.50"
  expiryValue := 5
  idempotencyKey := text "op-1"
  transportSuffix := text "ox=1"

def suffixConfig : BotBinaryAdapterConfig where
  httpBaseUrl := text "http://127.0.0.2/?v=1"
  includeSuffixInHttpRequest := true

/-- A trade request that is prepared and read back from the file name gives the signal for the same trade: the same symbol,
direction and amount, and the same end or duration, whatever unit it was written in. -/
theorem tradeRequest_survives {F : Type} {stod : Text → Option F} {request : TradeRequest} {amountValue key : Text}
    {config : BotBinaryAdapterConfig} {prepared : BotBinaryPreparedCommand} {amount : F}
    (h : prepareTradeRequest request amountValue key config = .ok prepared) (hamount : stod amountValue = some amount)
    (signalName : Text) :
    ∃ parsed, parseBotBinaryFileSignalName prepared.fileName = .ok parsed ∧
      botBinaryToTradeSignal stod parsed signalName = .ok (
        if 0 < request.expiryTime then
          { symbol := request.symbol, signalName, orderType := request.orderType, amount, optionType := .classic
            expiryTime := request.expiryTime.toInt }
        else
          { symbol := request.symbol, signalName, orderType := request.orderType, amount, optionType := .sprint
            duration := request.duration }) := by
  obtain ⟨_, -, h⟩ := bind_eq_ok.mp h
  obtain ⟨command, hcommand, h⟩ := bind_eq_ok.mp h
  obtain ⟨direction, haccepted, -, rfl⟩ := prepare_eq_ok h
  refine ⟨_, parse_fileName haccepted, ?_⟩
  unfold requestCommand at hcommand
  by_cases hend : 0 < request.expiryTime
  · rw [if_pos hend] at hcommand ⊢
    obtain ⟨_, -, hcommand⟩ := bind_eq_ok.mp hcommand
    cases hcommand
    exact toTradeSignal_endTime hamount hend rfl rfl
  · rw [if_neg hend] at hcommand ⊢
    obtain ⟨_, -, hcommand⟩ := bind_eq_ok.mp hcommand
    cases hcommand
    exact toTradeSignal_duration hamount rfl rfl

/-- The whole part of a decimal. -/
def wholePart (value : Text) : Option Nat := some (TradingView.decimalValue (value.takeWhile isDigit))

def hourPut : TradeRequest where
  symbol := text "R_25"
  orderType := .sell
  duration := 3600
  expiryTime := 0

theorem tradeRequest_survives_hour :
    ∃ parsed, parseBotBinaryFileSignalName (text "R_25=PUT=7.5=duration=1=h=ox_3rf00g2lgezp1.txt") = .ok parsed ∧
      botBinaryToTradeSignal wholePart parsed (text "bot_binary") = .ok
        { symbol := text "R_25", signalName := text "bot_binary", orderType := .sell, amount := 7, optionType := .sprint
          duration := 3600 } := by
  have hprepared : prepareTradeRequest hourPut (text "7.5") (text "op-2") { httpBaseUrl := text "http://127.0.0.2/" } = .ok
      { idempotencyKey := text "op-2"
        requestQueryValue := text "R_25=PUT=7.5=duration=1=h="
        httpUrl := text "http://127.0.0.2/?request=R_25%3DPUT%3D7.5%3Dduration%3D1%3Dh%3D"
        fileName := text "R_25=PUT=7.5=duration=1=h=ox_3rf00g2lgezp1.txt"
        transportSuffix := text "ox_3rf00g2lgezp1" } := by
    decide +kernel
  have hamount : wholePart (text "7.5") = some 7 := by decide +kernel
  exact tradeRequest_survives hprepared hamount (text "bot_binary")

/-! ## The bridge -/

/-- In whatever order requests and files are handled, at most one command has a key, in progress or handled, unless between
one reservation of the key and the next as many different other keys were reserved as the cache holds. -/
theorem command_handled_once {T F : Type} [DecidableEq T] (config : BotBinaryBridgeConfig) (amounts : Amounts F)
    (es : List (Event T)) (key : Text) :
    let s := exec (step config amounts) {} es
    let steps := trace (step config amounts) {} es
    Crowded config.dedupeCacheSize key (reservations steps) ∨
      (heldKeys s.calls).count key + (handledKeys steps).count key ≤ 1 := by
  obtain ⟨-, hcrowded | hsingle⟩ := run_single config amounts es key
  · exact .inl hcrowded
  · exact .inr hsingle.le_one

/-- Both caches hold each key once, and no more keys than they may; a file that stays in the directory is taken up again only
after as many other files were newly seen. -/
theorem files_spaced {T F : Type} [DecidableEq T] (config : BotBinaryBridgeConfig) (amounts : Amounts F)
    (es : List (Event T)) :
    let s := exec (step config amounts) {} es
    Coherent config.dedupeCacheSize s.state.dedupe ∧ Coherent config.dedupeCacheSize s.state.seenFiles ∧
      Spaced config.dedupeCacheSize (seenNames (trace (step config amounts) {} es)) := by
  obtain ⟨hkeys, -⟩ := run_single config amounts es []
  obtain ⟨hfiles, -, hspaced⟩ := run_seen config amounts es
  exact ⟨hkeys, hfiles, hspaced⟩

end OptionX.BotBinary
