import Miez.MessageBroker
import Miez.Proofs.ThreadPool.Wait
import Miez.Proofs.MessageBroker.Steps
import Miez.Proofs.MessageBroker.Channels
import Miez.Proofs.MessageBroker.Proxies
import Miez.Proofs.MessageBroker.Present
import Miez.Proofs.MessageBroker.Publishes
import Miez.Proofs.MessageBroker.Fanout
import Miez.Proofs.MessageBroker.Delivery
import Miez.Proofs.MessageBroker.Barrier
import Miez.ClientHandler
import Miez.Proofs.NetworkServer.Scanning
import Miez.Proofs.NetworkServer.Framing
import Miez.NetworkServer
import Miez.Proofs.NetworkServer.Steps
import Miez.Proofs.NetworkServer.Authentication
import Miez.Proofs.MessageBroker.Failures
import Miez.Proofs.NetworkServer.Content
import Miez.GenericHashTable.Calls
import Miez.GenericHashTable.Threads
import Miez.GenericLinkedList
import Miez.GenericQueue
import Miez.Lib.Stacks
import Miez.Proofs.GenericHashTable.Calls
import Miez.Proofs.GenericHashTable.Stacks
import Miez.Proofs.GenericLinkedList
import Miez.Proofs.GenericQueue
import Miez.Proofs.MessageBroker.GetOrCreate
import Miez.Proofs.MessageBroker.Listed
import Miez.Proofs.MessageBroker.Receive
import Miez.Proofs.ThreadPool.Order
import Miez.Lib.Ownership
import Miez.GenericLinkedList.Iterators
import Miez.Proofs.GenericLinkedList.Ranges
import Miez.MessageBroker.Locks
import Miez.Proofs.MessageBroker.Deadlock
import Miez.Proofs.MessageBroker.Pointers
import Miez.Proofs.MessageBroker.Sleepers
import Miez.Proofs.MessageBroker.SingleWorker
import Miez.Proofs.NetworkServer.Calls
import Miez.Proofs.NetworkServer.Ownership
import Miez.Proofs.NetworkServer.Lines
import Miez.NetworkServer.Frames
import Miez.Proofs.NetworkServer.Frames
import Miez.Proofs.NetworkServer.Transfers
import Miez.Proofs.NetworkServer.Detach
import Miez.Proofs.NetworkServer.Inboxes
import Miez.Proofs.NetworkServer.Reconnection
import Miez.Proofs.NetworkServer.Replies
import Miez.Lib.Ledger
import Miez.GenericLinkedList.Navigation
import Miez.Proofs.GenericLinkedList.Navigation
import Miez.Proofs.GenericLinkedList.Filtering
import Miez.GenericLinkedList.Lifetime
import Miez.Proofs.GenericLinkedList.Lifetime
import Miez.Proofs.GenericLinkedList.Ledger
import Miez.GenericHashTable.Lifetime
import Miez.Proofs.GenericHashTable.Ledger
import Miez.Proofs.MessageBroker.Names
import Miez.Proofs.NetworkServer.FrameBuffer
import Miez.Proofs.MessageBroker.Removal
import Miez.Proofs.MessageBroker.OwnProxy
import Miez.Proofs.MessageBroker.Released
import Miez.Proofs.MessageBroker.Safety
import Miez.Proofs.NetworkServer.Refused
import Miez.Lib.PubSub
import Miez.Lib.Fairness
import Miez.Lib.Monitor
import Miez.Proofs.MessageBroker.Streams
import Miez.Proofs.NetworkServer.Streams
import Miez.Proofs.ThreadPool.Fair
import Miez.Proofs.ThreadPool.Liveness
import Miez.NetworkServer.Session
import Miez.Proofs.NetworkServer.Session
import Miez.Proofs.NetworkServer.Conversation
import Miez.Construction
import Miez.Proofs.Construction
import Miez.Proofs.MessageBroker.Construction
import Miez.Proofs.NetworkServer.Construction
import Miez.MessageBroker.Lifetime
import Miez.Proofs.MessageBroker.Ledger
import Miez.Proofs.MessageBroker.Lifetime
