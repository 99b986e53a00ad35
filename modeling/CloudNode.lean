import CloudNode.Client.Accesses
import CloudNode.Client.Answering
import CloudNode.Client.Contacts
import CloudNode.Client.Deadlock
import CloudNode.Client.Departures
import CloudNode.Client.FileSpecs
import CloudNode.Client.Gathering
import CloudNode.Client.Handshake
import CloudNode.Client.Joining
import CloudNode.Client.Locks
import CloudNode.Client.Negotiation
import CloudNode.Client.OfferedNames
import CloudNode.Client.Passes
import CloudNode.Client.Reconnecting
import CloudNode.Client.Requests
import CloudNode.Client.RosterUpdates
import CloudNode.Client.Shutdown
import CloudNode.Client.Stopping
import CloudNode.Lib.Base64
import CloudNode.Lib.Blocks
import CloudNode.Lib.Crc
import CloudNode.Lib.Records
import CloudNode.Lib.Trees
import CloudNode.Phone.Candidates
import CloudNode.Phone.Connections
import CloudNode.Phone.Interleaving
import CloudNode.Phone.Sending
import CloudNode.Phone.Waiters
import CloudNode.Signalling.Accesses
import CloudNode.Signalling.Closing
import CloudNode.Signalling.Exactness
import CloudNode.Signalling.Refusals
import CloudNode.Signalling.Relaying
import CloudNode.Signalling.Roster
import CloudNode.Signalling.Shutdown
import CloudNode.Signalling.Takeover
import CloudNode.Signalling.Transport
import CloudNode.Sync.Buffers
import CloudNode.Sync.Coverage
import CloudNode.Sync.Debouncing
import CloudNode.Sync.Echoes
import CloudNode.Sync.Edits
import CloudNode.Sync.FileTree
import CloudNode.Sync.Polling
import CloudNode.Sync.Scanning
import CloudNode.Sync.Settled
import CloudNode.Transfer.Blocking
import CloudNode.Transfer.Checksum
import CloudNode.Transfer.Confinement
import CloudNode.Transfer.Draining
import CloudNode.Transfer.Framing
import CloudNode.Transfer.Integrity
import CloudNode.Transfer.Locking
import CloudNode.Transfer.Offers
import CloudNode.Transfer.Placement
import CloudNode.Transfer.Queues
import CloudNode.Transfer.Streaming
import CloudNode.Wire.Descriptions
import CloudNode.Wire.Dispatch
import CloudNode.Wire.Members
import CloudNode.Wire.Messages
