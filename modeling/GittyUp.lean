import GittyUp.Config.RoundTrip
import GittyUp.Config.Acceptance
import GittyUp.Config.Delivered
import GittyUp.Config.Layout
import GittyUp.Config.Port
import GittyUp.Config.ThreadCount
import GittyUp.Config.StackSafety
import GittyUp.Config.Termination
import GittyUp.Router.Selection
import GittyUp.Router.Settings
import GittyUp.Router.Status
import GittyUp.Server.Main
import GittyUp.Proxy.Proxy
import GittyUp.Proxy.Upstream
import GittyUp.Proxy.Relay
import GittyUp.Http.Session
import GittyUp.Http.Body
import GittyUp.Http.Headers
import GittyUp.Http.Target
import GittyUp.Http.Wire
import GittyUp.Http.Reading
import GittyUp.Lib.SqlMeaning
import GittyUp.Lib.Increment
import GittyUp.Lib.Prog
import GittyUp.Meme.SqlLib
import GittyUp.Meme.SqlText
import GittyUp.Meme.Search
import GittyUp.Meme.Popularity
import GittyUp.Meme.Reports
import GittyUp.Meme.Statements
import GittyUp.Meme.UriLib
import GittyUp.Meme.Escapes
import GittyUp.Meme.Handler
import GittyUp.Meme.Form
import GittyUp.Meme.Store
import GittyUp.Meme.Command
import GittyUp.Meme.Interleaving
import GittyUp.Meme.Linearization
import GittyUp.Meme.Refinement
import GittyUp.Meme.Views
import GittyUp.Meme.Rows
import GittyUp.Meme.Browser
import GittyUp.Meme.Handles
import GittyUp.Router.Handlers
import GittyUp.Router.Echo
import GittyUp.Router.Locks
import GittyUp.Router.Recording
import GittyUp.Router.Registration
import GittyUp.Router.Safety
import GittyUp.Router.Splitting
import GittyUp.Router.StaticFiles
import GittyUp.Router.StatusHtml
import GittyUp.Router.Concurrency
import GittyUp.Server.Lifecycle
import GittyUp.Server.Answers
import GittyUp.Web.Published
import GittyUp.Web.Users
import GittyUp.Proxy.Chain
