import SysInfo.Transition
import SysInfo.Ranking
import SysInfo.Separated
import SysInfo.Text
import SysInfo.Loops
import SysInfo.Sql
import SysInfo.Utils
import SysInfo.Statements
import SysInfo.Session
import SysInfo.SessionRuns
import SysInfo.SessionEnd
import SysInfo.Acknowledgement
import SysInfo.Framing
import SysInfo.Server
import SysInfo.Authorization
import SysInfo.Service
import SysInfo.ServiceRuns
import SysInfo.Journal
import SysInfo.ServiceLifecycle
import SysInfo.RepeatTimer
import SysInfo.AuthorizedClients
import SysInfo.ConnectionString
import SysInfo.Client
import SysInfo.Reports
import SysInfo.Network
import SysInfo.ClientMain
import SysInfo.TimerSchedule
import SysInfo.ServerMain
import SysInfo.ServerProcess
import SysInfo.Alerts
import SysInfo.Processes
import SysInfo.Progress
