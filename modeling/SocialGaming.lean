import SocialGaming.Library.Outcome
import SocialGaming.Library.ScopeStack
import SocialGaming.Library.TokenStream
import SocialGaming.Library.Runs
import SocialGaming.Library.MessageQueue
import SocialGaming.Library.Collections
import SocialGaming.Library.Nested
import SocialGaming.Library.Decimal
import SocialGaming.Library.Depth
import SocialGaming.Library.Separated
import SocialGaming.Library.Selection
import SocialGaming.Library.MachineInt
import SocialGaming.Library.ListEdits
import SocialGaming.Variables
import SocialGaming.InPlace
import SocialGaming.RuleNode
import SocialGaming.EnvironmentMgr
import SocialGaming.EnvironmentCalls
import SocialGaming.EnvironmentRuns
import SocialGaming.Visibility
import SocialGaming.LoopScope
import SocialGaming.LoopExecution
import SocialGaming.LoopConsumption
import SocialGaming.LoopTermination
import SocialGaming.LoopEntry
import SocialGaming.LoopLocality
import SocialGaming.TimerSweep
import SocialGaming.TimerMoves
import SocialGaming.BlockedExit
import SocialGaming.TimerArmed
import SocialGaming.TimerScopes
import SocialGaming.GameEnd
import SocialGaming.SweepOutcome
import SocialGaming.SyntaxTree
import SocialGaming.RuleInterpreter
import SocialGaming.RuleLayout
import SocialGaming.RuleTree
import SocialGaming.ParsedLoop
import SocialGaming.ExpressionEvaluator
import SocialGaming.SourceExpression
import SocialGaming.ExpressionEvaluation
import SocialGaming.BuiltinCalls
import SocialGaming.ExpressionEnds
import SocialGaming.Ambassador
import SocialGaming.AmbassadorRuns
import SocialGaming.AmbassadorDelivery
import SocialGaming.AmbassadorReads
import SocialGaming.Server
import SocialGaming.ChannelWrites
import SocialGaming.HttpRequests
import SocialGaming.GameServer
import SocialGaming.MainLoop
import SocialGaming.ServerTables
import SocialGaming.ServerClients
import SocialGaming.ChatLog
import SocialGaming.ServerIds
import SocialGaming.GameInstance
import SocialGaming.PlayerRoster
import SocialGaming.TaskFactory
import SocialGaming.TaskFactoryChecks
import SocialGaming.Comments
import SocialGaming.Comparison
import SocialGaming.NestedValues
import SocialGaming.SetupGameSetting
import SocialGaming.SettingsLiterals
import SocialGaming.SettingsDefaults
import SocialGaming.SetupConfiguration
import SocialGaming.TokenValues
import SocialGaming.ExpressionLayout
import SocialGaming.InputMessages
import SocialGaming.Recipients
import SocialGaming.ScoresMessages
import SocialGaming.ExtendedLists
import SocialGaming.ListAccess
import SocialGaming.Library.SharedOwnership
import SocialGaming.Library.NewShare
import SocialGaming.SharedStore
import SocialGaming.VariableSets
import SocialGaming.KeyedAccess
import SocialGaming.Assignment
import SocialGaming.Collect
import SocialGaming.Responses
import SocialGaming.Library.PostOrder
import SocialGaming.DescendantSearch
import SocialGaming.TaskArguments
import SocialGaming.LoopSafety
import SocialGaming.SoleOwners
import SocialGaming.SetRuns
import SocialGaming.Library.Broadcast
import SocialGaming.Client
import SocialGaming.ClientLink
import SocialGaming.ServerRounds
import SocialGaming.Chat
import SocialGaming.ChatText
import SocialGaming.Library.Refinement
import SocialGaming.GameInstanceManager
import SocialGaming.MockServer
import SocialGaming.AnnouncedIds
import SocialGaming.Library.Patterns
import SocialGaming.EventLoop
import SocialGaming.EventLoopRuns
import SocialGaming.EventLoopInput
import SocialGaming.HttpConnection
