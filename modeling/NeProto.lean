import NeProto.Continuity.Resume
import NeProto.Continuity.Superseded
import NeProto.Tunstack.Epochs
import NeProto.Constellation.Renewal
import NeProto.Mobile.AttachContinuity
import NeProto.Session.Retirement
import NeProto.Session.Mux
import NeProto.Session.BarrierSafety
import NeProto.Cluster.Star
import NeProto.Cluster.StateCache
import NeProto.Tunstack.Attribution
import NeProto.Tunstack.SessionRouter
import NeProto.Proxy.Codec
import NeProto.Proxy.UDPAssociation
import NeProto.Clientcore.Watched
import NeProto.Cluster.PeerPool
import NeProto.Session.SendPath
import NeProto.Usage.Accounting
import NeProto.Windowsclient.Controller
import NeProto.Admin.Faults
import NeProto.App.Server
import NeProto.Carrier.WebRTC
import NeProto.Geodata.Updater
