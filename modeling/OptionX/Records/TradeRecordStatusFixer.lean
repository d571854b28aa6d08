import OptionX.Records.TradeRecord

/-!
# TradeRecordStatusFixer

`TradeRecordStatusFixer.hpp` without a resolver. Timestamps are integers, and the duration in milliseconds is computed
in the 32 bits of its field.
-/

namespace OptionX.Records

open TradeExecution (TradeState)

variable {F : Type}

/-- The states that a trade can get stuck in. -/
def isPending (state : TradeState) : Bool :=
  state == .openSuccess || state == .inProgress || state == .waitingClose

namespace TradeRecordStatusFixer

/-- The loop over the terminal trades. -/
def maxCloseDate (records : List (TradeRecord F)) : Int :=
  records.foldl (fun maxCloseDate rec =>
    if isTerminalTradeState rec.tradeState = true ∧ maxCloseDate < rec.closeDate then rec.closeDate
    else maxCloseDate) 0

def shouldCheckError (staleBorder : Int) (rec : TradeRecord F) : Bool :=
  if 0 < rec.closeDate ∧ rec.closeDate < staleBorder then true
  else if 0 < rec.openDate ∧ 0 < rec.duration ∧ rec.openDate + (rec.duration * 1000).toNat < staleBorder then true
  else false

/-- One turn of the second loop. -/
def fixRecord (staleBorder : Int) (rec : TradeRecord F) : TradeRecord F :=
  if isTerminalTradeState rec.tradeState then rec
  else if rec.tradeState ≠ .openSuccess ∧ rec.tradeState ≠ .inProgress ∧ rec.tradeState ≠ .waitingClose then rec
  else if shouldCheckError staleBorder rec then { rec with tradeState := .checkError }
  else rec

def fixStaleStatuses (waitStatusMs : Int) (records : List (TradeRecord F)) : List (TradeRecord F) :=
  if records.isEmpty then records
  else
    let maxCloseDate := maxCloseDate records
    if maxCloseDate = 0 then records
    else
      let staleBorder := maxCloseDate - waitStatusMs
      if staleBorder ≤ 0 then records else records.map (fixRecord staleBorder)

end TradeRecordStatusFixer

end OptionX.Records
