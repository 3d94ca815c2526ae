import ReplicatedAccount.Client.Execution
import ReplicatedAccount.Client.Agreement
import ReplicatedAccount.Client.MessageSize
import ReplicatedAccount.Network.Repetition
import ReplicatedAccount.Network.ProgramOrder
import ReplicatedAccount.Network.SyncedBalance
import ReplicatedAccount.Network.Convergence
import ReplicatedAccount.Network.Status
import ReplicatedAccount.Network.FiniteBalance
import ReplicatedAccount.Concurrent.NaiveBalance
import ReplicatedAccount.Concurrent.Account
import ReplicatedAccount.Spread.ListenerThread
import ReplicatedAccount.Spread.Downstream
import ReplicatedAccount.Foundations.Acknowledgement
import ReplicatedAccount.Foundations.Reassembly
import ReplicatedAccount.Foundations.RoundRobin
import ReplicatedAccount.Spread.Circulation
import ReplicatedAccount.Spread.DeliveryLoops
import ReplicatedAccount.Spread.Window
import ReplicatedAccount.Spread.TotalOrder
import ReplicatedAccount.Spread.Rounds
