import IChat.Agent.ChatCompletions
import IChat.Agent.Context
import IChat.Agent.OpenRouter
import IChat.Agent.ToolBatches
import IChat.Agent.Wire
import IChat.Auth.EmailTokens
import IChat.Auth.PasswordBudget
import IChat.Auth.RefreshTokens
import IChat.Auth.ResetRequests
import IChat.Auth.SlidingWindow
import IChat.Chat.Attachments
import IChat.Chat.Detached
import IChat.Chat.Faithful
import IChat.Chat.Histories
import IChat.Chat.Images
import IChat.Chat.Quotas
import IChat.Conversations.AssistantText
import IChat.Conversations.CitationAgreement
import IChat.Conversations.CitationRuns
import IChat.Conversations.Pins
import IChat.Conversations.SearchCursor
import IChat.Conversations.SearchPages
import IChat.Conversations.SearchSnippets
import IChat.Conversations.SearchText
import IChat.Conversations.Service
import IChat.Conversations.TitleJobs
import IChat.Email.Outbox
import IChat.Email.Progress
import IChat.Email.Renderer
import IChat.Files.AvatarInvariant
import IChat.Files.AvatarSafety
import IChat.Files.AvatarSteps
import IChat.Files.AvatarWorld
import IChat.Files.Avatars
import IChat.Files.Cancellation
import IChat.Files.Docx
import IChat.Files.DocxExact
import IChat.Files.Maintenance
import IChat.Files.Ooxml
import IChat.Files.OoxmlParts
import IChat.Files.Pptx
import IChat.Files.PptxExact
import IChat.Files.PptxShown
import IChat.Files.StagingDownload
import IChat.Files.Xlsx
import IChat.Files.XlsxColumns
import IChat.Files.XlsxExact
import IChat.Files.XlsxShown
import IChat.Frontend.AttachmentUploads
import IChat.Frontend.ConversationIndex
import IChat.Frontend.MathDelimiters
import IChat.Frontend.MathKept
import IChat.Frontend.MathLayout
import IChat.Frontend.MathSeparation
import IChat.Frontend.SessionSafety
import IChat.Frontend.UploadSafety
import IChat.Frontend.VisibleText
import IChat.Frontend.VisibleTextRanges
import IChat.General.Base64
import IChat.General.BijectiveNumeral
import IChat.General.Binary64
import IChat.General.Collapse
import IChat.General.Datetime
import IChat.General.Delimiters
import IChat.General.Digits
import IChat.General.Gather
import IChat.General.Grouping
import IChat.General.JsonObject
import IChat.General.JsonText
import IChat.General.Keyset
import IChat.General.Segments
import IChat.General.SlidingWindow
import IChat.ModelCatalog.CatalogInvariant
import IChat.ModelCatalog.Endpoints
import IChat.ModelCatalog.Management
import IChat.ModelCatalog.Snapshots
import IChat.Runs.AgentConsumer
import IChat.Runs.DraftTimers
import IChat.Runs.FinalAnswer
import IChat.Runs.Recovery
import IChat.Runs.RouteReplay
import IChat.Runs.Sse
import IChat.Runs.StateResume
import IChat.Runs.StoredTranscript
import IChat.Runs.StreamCheckpoints
import IChat.Runs.Timing
import IChat.Runs.Transcript
import IChat.Search.CitationIds
import IChat.Search.CompletionOrder
import IChat.Search.ConversationIds
import IChat.Search.ConversationSources
import IChat.Shares.Sharing
