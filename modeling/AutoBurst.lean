import AutoBurst.Lib.CountedLoop
import AutoBurst.Lib.WhileLoop
import AutoBurst.Lib.Reach
import AutoBurst.Lib.Dict
import AutoBurst.Lib.Decimal
import AutoBurst.Lib.Custody
import AutoBurst.Lib.SmoothRound
import AutoBurst.Lib.Peg
import AutoBurst.Nginx.RoundRobin
import AutoBurst.Nginx.LeastConn
import AutoBurst.Nginx.LeastConnWalks
import AutoBurst.Nginx.Selection
import AutoBurst.Nginx.TieBalance
import AutoBurst.Nginx.Proportion
import AutoBurst.Nginx.Eligibility
import AutoBurst.Nginx.Requests
import AutoBurst.Nginx.Retries
import AutoBurst.Controller.Instance
import AutoBurst.Controller.LoadBalancer
import AutoBurst.Controller.ArrivalRate
import AutoBurst.Controller.ConfCache
import AutoBurst.Controller.ThroughputTable
import AutoBurst.Controller.TableFile
import AutoBurst.Controller.TableLookup
import AutoBurst.Controller.FilledTable
import AutoBurst.Controller.RowOrder
import AutoBurst.Controller.Credit
import AutoBurst.Controller.Policies
import AutoBurst.Controller.Accumulator
import AutoBurst.Controller.Fleet
import AutoBurst.Controller.Machine
import AutoBurst.Controller.Moves
import AutoBurst.Controller.Simulation
import AutoBurst.Controller.StartUp
import AutoBurst.Controller.Conservation
import AutoBurst.Controller.Snapshot
import AutoBurst.Controller.BurstableWeight
import AutoBurst.Controller.LatencyWeights
import AutoBurst.Controller.OnDemandWeight
import AutoBurst.Controller.Deployment
import AutoBurst.Controller.ShortTermSafety
import AutoBurst.Controller.Books
import AutoBurst.Controller.Billing
import AutoBurst.Controller.Alternation
import AutoBurst.Controller.Stock
import AutoBurst.Controller.Scaling
import AutoBurst.Controller.DrainLoop
import AutoBurst.Controller.CreditScaling
import AutoBurst.Conf.Grammar
import AutoBurst.Conf.Dumper
import AutoBurst.Conf.Terminals
import AutoBurst.Conf.Entries
import AutoBurst.Conf.RoundTrip
import AutoBurst.Conf.Rewrite
import AutoBurst.Nginx.Numbers
import AutoBurst.Nginx.Address
import AutoBurst.Nginx.ConfFile
import AutoBurst.Nginx.Directives
import AutoBurst.Conf.Served
import AutoBurst.Conf.Site
import AutoBurst.Conf.Deployed
import AutoBurst.Nginx.Failover
import AutoBurst.Nginx.FailoverRuns
import AutoBurst.Lib.Rotation
import AutoBurst.Nginx.Shares
import AutoBurst.Nginx.Breaker
import AutoBurst.Controller.WindUp
import AutoBurst.Conf.Traffic
import AutoBurst.Controller.StatusPage
