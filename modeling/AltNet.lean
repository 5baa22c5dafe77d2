import AltNet.Dht.StoreEviction
import AltNet.Dht.Crash
import AltNet.Dht.RevokeFinality
import AltNet.Dht.RevokeGossip
import AltNet.Registrar.Republish
import AltNet.Peer.SimultaneousDial
import AltNet.Peer.ConnLimit
import AltNet.Peer.Request
import AltNet.Peer.EnsureConnected
import AltNet.Dht.Published
import AltNet.Node.Sender
import AltNet.Node.Trust
import AltNet.Dht.ValueSize
import AltNet.Dht.Replies
import AltNet.Name.Publish
import AltNet.Secure.Integrity
import AltNet.Secure.Delivery
import AltNet.Secure.Agreement
import AltNet.Relay.Transparent
import AltNet.Relay.Tunnel
import AltNet.Relay.Latest
import AltNet.Gateway.SiteStats
import AltNet.Gateway.RateLimit
import AltNet.Dns.Reply
import AltNet.Files.Hostile
import AltNet.Files.Contained
import AltNet.Files.RandomAccess
import AltNet.Dht.FindNodes
import AltNet.Node.Broadcast
import AltNet.Dht.Metric
import AltNet.Relay.Protocol
import AltNet.Relay.Client
import AltNet.Dht.MessageFit
