import PsqlTcpProxy.Io.BipartiteBufSpscFifo
import PsqlTcpProxy.Io.ChannelDelivery
import PsqlTcpProxy.Io.ChannelReadiness
import PsqlTcpProxy.Io.ChannelRoom
import PsqlTcpProxy.Io.BusDeletion
import PsqlTcpProxy.Echo.Service
import PsqlTcpProxy.Io.BusRegistration
import PsqlTcpProxy.Io.BusErrors
import PsqlTcpProxy.Io.Address
import PsqlTcpProxy.Psql.ClientStream
import PsqlTcpProxy.Psql.LogFormat
import PsqlTcpProxy.Psql.Inspection
import PsqlTcpProxy.Psql.StartupParameters
import PsqlTcpProxy.Psql.Retained
import PsqlTcpProxy.Psql.QueryProgress
import PsqlTcpProxy.Psql.QueryFits
import PsqlTcpProxy.Psql.QueryLoad
import PsqlTcpProxy.Psql.Terminated
import PsqlTcpProxy.Proxy.Startup
import PsqlTcpProxy.Proxy.Delivery
import PsqlTcpProxy.Proxy.NoCrossing
import PsqlTcpProxy.Proxy.Failure
import PsqlTcpProxy.Proxy.Accounting
import PsqlTcpProxy.Proxy.AcceptRetries
