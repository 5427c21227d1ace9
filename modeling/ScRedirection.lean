import ScRedirection.Base64.Reads
import ScRedirection.Json.Utf8
import ScRedirection.Websocketpp.SizeLimit
import ScRedirection.WebsocketServer.Inbound
import ScRedirection.WebsocketServer.Membership
import ScRedirection.WebsocketServer.Broadcast
import ScRedirection.WebsocketServer.Registration
import ScRedirection.WebsocketServer.Registry
import ScRedirection.WebsocketServer.Relay
import ScRedirection.WebsocketServer.Delivery
import ScRedirection.Base64.LineBreaks
import ScRedirection.TcpTunnel.EndToEnd
import ScRedirection.TcpTunnel.Waiting
import ScRedirection.TcpTunnel.Forwarding
import ScRedirection.TcpTunnel.Descriptors
import ScRedirection.TcpTunnel.Sessions
import ScRedirection.TcpTunnel.ForkAffected
import ScRedirection.TcpTunnel.ShortSend
import ScRedirection.TcpTunnel.BufferSize
import ScRedirection.TcpTunnel.OverTheWire
import ScRedirection.ServerProgram.InputThread
import ScRedirection.ServerProgram.Echo
import ScRedirection.MultiThreadQueue.Size
