import Brickwright.HubProgram.Upload.Isolation
import Brickwright.Lump.Requests.Verified
import Brickwright.HubProgram.Service.Verified
import Brickwright.Btsensor.Tx.Wakeup
import Brickwright.Btsensor.Tx.Timer
import Brickwright.HubProgram.Device.Session
import Brickwright.Bluetooth.Settings.Verified
import Brickwright.Bluetooth.Lifecycle
import Brickwright.Bluetooth.Transport
import Brickwright.Bluetooth.Work.Followed
import Brickwright.Bluetooth.Work.Synced
import Brickwright.Bluetooth.Work.Delayed
import Brickwright.Btsensor.Modern.Verified
import Brickwright.Btsensor.Scheduler.Quiescence
import Brickwright.Btsensor.Classic.Verified
import Brickwright.Btsensor.Classic.Positions
import Brickwright.Btsensor.Bundle.Verified
import Brickwright.ImuViewer.Verified
import Brickwright.Drivebase.Chardev.Verified
import Brickwright.Drivebase.Passive
import Brickwright.Drivebase.Completion
import Brickwright.Drivebase.Smart
import Brickwright.Drivebase.Reclaim
import Brickwright.Drivebase.Containment
import Brickwright.Protocol.Records
import Brickwright.Legosensor.Topics
import Brickwright.Legosensor.Claims
import Brickwright.Legoport.Handoff.Verified
import Brickwright.Legoport.Rescan
import Brickwright.Btcap.Wakeups
import Brickwright.HubProgram.Program.Waits
import Brickwright.Btsensor.Lifecycle.Verified
import Brickwright.Btsensor.Sound.Verified
import Brickwright.Charger.Timeout
import Brickwright.Btuart
import Brickwright.Sound.Verified
import Brickwright.Sound.Blobs
import Brickwright.CaptureViewer.Noise
import Brickwright.CaptureViewer.FieldReader
import Brickwright.CaptureViewer.Writer
import Brickwright.Capture.Verified
import Brickwright.Btsensor.Neutral.Replies
import Brickwright.HubProgram.Motor
import Brickwright.Lump.Frames
import Brickwright.Lump.Bounds.Verified
import Brickwright.Bluetooth.Work.Failing
import Brickwright.Drivebase.Stretch
import Brickwright.Drivebase.Arc
import Brickwright.Drivebase.Pauses
import Brickwright.Drivebase.Chardev.Fifo
import Brickwright.Drivebase.Servo
import Brickwright.Drivebase.Breakaway
import Brickwright.Drivebase.Windup
import Brickwright.Drivebase.Retarget
import Brickwright.Imu.Timestamp
import Brickwright.Legoport.Edges
