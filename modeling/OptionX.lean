import OptionX.BotBinary.Theorems
import OptionX.Bridges.FileBridgeTheorems
import OptionX.Bridges.Theorems
import OptionX.Components.Theorems
import OptionX.IntradeBar.RequestTheorems
import OptionX.IntradeBar.Theorems
import OptionX.Lifecycle.Theorems
import OptionX.MarketData.Lemmas.BarRecovery
import OptionX.MarketData.Theorems
import OptionX.Platforms.Theorems
import OptionX.Records.Theorems
import OptionX.Storage.Theorems
import OptionX.Telegram.Theorems
import OptionX.TradeExecution.Theorems
import OptionX.TradingSystem.PolicyTheorems
import OptionX.TradingSystem.Theorems
import OptionX.TradingView.Theorems
import OptionX.Utils.TextTheorems
import OptionX.Utils.Theorems
