import Sfap.Lib.Dialogue
import Sfap.Lib.History
import Sfap.Error.Identity
import Sfap.Utils.Buffer.Equality
import Sfap.Utils.Buffer.Find
import Sfap.Utils.Buffer.Frames
import Sfap.Utils.Buffer.Subview
import Sfap.Utils.String.Find
import Sfap.Utils.String.Storage
import Sfap.Utils.String.Subview
import Sfap.Utils.RingBuffer.Linearizable
import Sfap.Utils.RingBuffer.Occupancy
import Sfap.Utils.RingBuffer.Outstanding
import Sfap.Utils.RingBuffer.Placement
import Sfap.Utils.RingBuffer.Progress
import Sfap.Utils.RingBuffer.Queue
import Sfap.Utils.RingBuffer.RaceFreedom
import Sfap.Utils.RingBuffer.Reservation
import Sfap.Utils.Task.Awaiting
import Sfap.Utils.Task.Frames
import Sfap.Net.Address.Refresh
import Sfap.Net.Address.Runs
import Sfap.Net.AddressKind.Classification
import Sfap.Net.IOUring.Arrivals
import Sfap.Net.IOUring.Connect
import Sfap.Net.IOUring.Descriptors
import Sfap.Net.IOUring.Drain
import Sfap.Net.IOUring.EventLoop
import Sfap.Net.IOUring.Life
import Sfap.Net.IOUring.Outcome
import Sfap.Net.IOUring.Requests
import Sfap.Net.Resolve.Policy
import Sfap.Net.Socket.Delivery
import Sfap.Net.Socket.Moves
import Sfap.Net.Socket.Ownership
import Sfap.Net.Socket.Stream
import Sfap.Net.Socket.Transfer
