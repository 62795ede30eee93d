import Keynjector.Lib.Words
import Keynjector.Lib.BlockHash
import Keynjector.Lib.Straight
import Keynjector.Lib.Cfb
import Keynjector.Lib.Scan
import Keynjector.Lib.Tiling
import Keynjector.Lib.Runs
import Keynjector.Lib.Reader
import Keynjector.Lib.Loop
import Keynjector.Lib.Segment
import Keynjector.Lib.Feistel
import Keynjector.Lib.Display
import Keynjector.Lib.Rle
import Keynjector.Lib.Bits
import Keynjector.Lib.Canonical
import Keynjector.Lib.Deflate
import Keynjector.Sha1.Fips180
import Keynjector.Sha1.Process
import Keynjector.Sha1.Arm
import Keynjector.Sha1.ArmProof
import Keynjector.Sha1.Update
import Keynjector.Cast128.Tables
import Keynjector.Cast128.Cipher
import Keynjector.Cast128.CfbMode
import Keynjector.Cast128.Feistel
import Keynjector.Opgp.Stream
import Keynjector.Opgp.Serves
import Keynjector.Opgp.S2k
import Keynjector.Opgp.Open
import Keynjector.Opgp.RoundTrip
import Keynjector.Opgp.Framing
import Keynjector.Opgp.Header
import Keynjector.Opgp.Ledger
import Keynjector.Opgp.Lengths
import Keynjector.Opgp.Frame
import Keynjector.Opgp.Compressed
import Keynjector.Opgp.Alignment
import Keynjector.Ui.Font
import Keynjector.Ui.Text
import Keynjector.Ui.Items
import Keynjector.Ui.ListBox
import Keynjector.Ui.KeyList
import Keynjector.Ui.HitTest
import Keynjector.Hid.Keyboard
import Keynjector.Hid.SendKeys
import Keynjector.Ui.Controls
import Keynjector.Ui.Screen
import Keynjector.Ui.Editors
import Keynjector.Ui.Typing
import Keynjector.Ui.LongPress
import Keynjector.Ui.Scrolling
import Keynjector.Ui.Paging
import Keynjector.Ui.Truncation
import Keynjector.Ui.Background
import Keynjector.Ui.Pixels
import Keynjector.Ui.Columns
import Keynjector.Ui.Bitmap
import Keynjector.Ui.Capture
import Keynjector.Firmware.Main
import Keynjector.Firmware.Moves
import Keynjector.Firmware.Animation
import Keynjector.Firmware.Unlock
import Keynjector.Firmware.Prompt
import Keynjector.Firmware.PinRetry
import Keynjector.Firmware.CardLock
import Keynjector.Firmware.KeyFile
import Keynjector.Firmware.DecryptFile
import Keynjector.Inflate.HuffTable
import Keynjector.Inflate.Codes
import Keynjector.Inflate.Decode
import Keynjector.Inflate.Tinfl
import Keynjector.Inflate.Sync
import Keynjector.Inflate.Macros
import Keynjector.Inflate.Expect
import Keynjector.Inflate.Blocks
import Keynjector.Inflate.Stored
import Keynjector.Inflate.Sizes
import Keynjector.Inflate.Symbols
import Keynjector.Inflate.Copies
import Keynjector.Inflate.Correct
import Keynjector.Inflate.Adler
import Keynjector.Inflate.Calls
import Keynjector.Inflate.Packed
import Keynjector.Inflate.Helpers
import Keynjector.Inflate.Message
import Keynjector.Firmware.Device
import Keynjector.Firmware.LockOut
import Keynjector.Firmware.Secrets
import Keynjector.Firmware.Quicksort
import Keynjector.Hid.Delivery
import Keynjector.Hid.Typed
import Keynjector.Touch.Debounce
import Keynjector.Touch.Touches
