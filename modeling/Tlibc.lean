import Tlibc.Native.Endian
import Tlibc.Native.Basic
import Tlibc.Lib.Crc
import Tlibc.Lib.Placement
import Tlibc.Native.Gpt
import Tlibc.Spec.GptAlloc
import Tlibc.Spec.GptEntries
import Tlibc.Spec.GptCrc
import Tlibc.Spec.GptHeaders
import Tlibc.Spec.GptImage
import Tlibc.Spec.GptDecode
import Tlibc.Native.Fat
import Tlibc.Lib.Chain
import Tlibc.Lib.Run
import Tlibc.Lib.Stages
import Tlibc.Spec.FatGeometry
import Tlibc.Spec.FatVolume
import Tlibc.Spec.FatCopyin
import Tlibc.Spec.FatCreate
import Tlibc.Spec.FatRuns
import Tlibc.Spec.FatReadback
import Tlibc.Native.Installer
import Tlibc.Spec.Installer
import Tlibc.Spec.Hosts
import Tlibc.Spec.FatLedger
import Tlibc.Spec.FatCapacity
import Tlibc.Spec.FatAtomic
import Tlibc.Spec.InstallerSize
import Tlibc.Lib.Overwrite
import Tlibc.Spec.FatReuse
import Tlibc.Lib.Lines
import Tlibc.Native.Stdio
import Tlibc.Spec.Stdio
import Tlibc.Spec.FatAddresses
import Tlibc.Spec.FatServed
import Tlibc.Spec.FatNames
import Tlibc.Native.Device
import Tlibc.Spec.Device
import Tlibc.Spec.DeviceRead
import Tlibc.Native.Eval
import Tlibc.Spec.Eval
import Tlibc.Lib.Loop
import Tlibc.Native.Boot
import Tlibc.Spec.BootDisk
import Tlibc.Spec.BzImage
import Tlibc.Spec.Vmlinux
import Tlibc.Lib.Processes
import Tlibc.Native.System
import Tlibc.Spec.System
import Tlibc.Lib.Tokens
import Tlibc.Native.Sh
import Tlibc.Spec.Sh
import Tlibc.Spec.GptDetect
import Tlibc.Spec.FatSizes
import Tlibc.Spec.FatChain
import Tlibc.Spec.FatChecks
import Tlibc.Spec.ShSegments
import Tlibc.Lib.Numeral
import Tlibc.Lib.While
import Tlibc.Native.Printf
import Tlibc.Spec.Printf
import Tlibc.Spec.Numerals
import Tlibc.Native.Arguments
import Tlibc.Spec.Arguments
import Tlibc.Spec.EvalCursor
import Tlibc.Spec.ShTables
import Tlibc.Spec.VmlinuxHeaders
import Tlibc.Native.Atoi
import Tlibc.Spec.Atoi
import Tlibc.Native.Wc
import Tlibc.Spec.Wc
import Tlibc.Lib.Machine
import Tlibc.Native.Jump
import Tlibc.Spec.Jump
import Tlibc.Spec.StdioBounds
import Tlibc.Lib.Directory
import Tlibc.Native.Mkdir
import Tlibc.Spec.Mkdir
import Tlibc.Spec.EvalBlanks
import Tlibc.Native.Getpayload
import Tlibc.Spec.Getpayload
import Tlibc.Native.Gettext
import Tlibc.Spec.Gettext
import Tlibc.Native.ReadDisk
import Tlibc.Spec.ReadDisk
import Tlibc.Spec.Readfile
import Tlibc.Native.Launch
import Tlibc.Spec.Launch
import Tlibc.Native.Session
import Tlibc.Spec.Session
import Tlibc.Native.Mkgpt
import Tlibc.Spec.DiskImage
import Tlibc.Lib.Segments
import Tlibc.Native.Startup
import Tlibc.Spec.BootImage
import Tlibc.Spec.Biosboot
import Tlibc.Spec.BiosMbr
import Tlibc.Lib.Fueled
import Tlibc.Native.Process
import Tlibc.Native.Tools
import Tlibc.Spec.Process
import Tlibc.Spec.Tools
import Tlibc.Native.Ls
import Tlibc.Spec.Ls
import Tlibc.Spec.Kill
