import ProxyPP.Http.Routing
import ProxyPP.Http.Isolation
import ProxyPP.Http.AbsoluteForm
import ProxyPP.Http.ChunkedTruncation
import ProxyPP.Http.ChunkedArithmetic
import ProxyPP.Http.Conservation
import ProxyPP.Http.Tunnel
import ProxyPP.Http.Containment
import ProxyPP.Http.Completion
import ProxyPP.Http.Reuse
import ProxyPP.Http.Sharing
import ProxyPP.Http.Buffering
import ProxyPP.Http.Connect
import ProxyPP.Http.AtRest
import ProxyPP.Http.ScriptSharing
import ProxyPP.Http.SessionStreams
import ProxyPP.Rules.HeaderLines
import ProxyPP.Rules.Agreement
import ProxyPP.Rules.HeaderView
import ProxyPP.Rules.Lifetimes
import ProxyPP.Qjs.Ownership
import ProxyPP.App.Main
