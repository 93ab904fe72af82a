import UBoot.Lib.Runs
import UBoot.Lib.Crash
import UBoot.Lib.Area
import UBoot.Common.Strings
import UBoot.Env.Map
import UBoot.Env.Flash
import UBoot.Env.Redund
import UBoot.Net.Tftp
import UBoot.Net.TftpStore
import UBoot.Net.TftpSession
import UBoot.Net.Demux
import UBoot.Net.ArpStart
import UBoot.Kermit.Nack
import UBoot.Flash.Complete
import UBoot.Srec.RoundTrip
import UBoot.Command.Fits
import UBoot.Command.Stack
import UBoot.Kermit.Transfer
import UBoot.Env.Backends
import UBoot.Image.Agree
import UBoot.Jffs2.Path
import UBoot.Serial.Queue
import UBoot.Env.SaveSect
import UBoot.Disk.Numbering
import UBoot.Net.SetIp
import UBoot.Net.Dhcp
import UBoot.Net.LoopRotates
import UBoot.Net.Options
import UBoot.Eeprom.RoundTrip
import UBoot.Pci.BusNumbers
import UBoot.Jffs2.Load
import UBoot.Usb.Kbd
import UBoot.I8042.Mailbox
import UBoot.Usb.Confined
import UBoot.Rtc.RoundTrip
import UBoot.Lists.Holds
import UBoot.Console.Select
import UBoot.Scsi.Read
import UBoot.Scsi.Scan
import UBoot.Boot.MemMap
import UBoot.Video.Console
import UBoot.Enet.InStep
import UBoot.Mii.RoundTrip
import UBoot.Post.Resume
import UBoot.Boot.DocBoot
import UBoot.Command.ParseLine
import UBoot.Command.Macros
import UBoot.Ide.Ident
import UBoot.Command.Autoscript
import UBoot.Main.Abortboot
import UBoot.Main.Readline
import UBoot.Doc.Transfer
import UBoot.Ide.Transfer
import UBoot.Ide.Atapi
import UBoot.Fdc.Read
import UBoot.Srec.Img2srec
import UBoot.Srec.ConvertElf
import UBoot.Srec.Validate
import UBoot.Lib.Extrema
import UBoot.Srec.Size
import UBoot.Env.GetenvR
import UBoot.Image.Chunked
import UBoot.Image.Ramdisk
import UBoot.Lib.Loop
import UBoot.Command.Modify
import UBoot.Rtc.MkDate
import UBoot.Pcmcia.Identify
import UBoot.Pcmcia.CheckIde
import UBoot.Image.Gunzip
import UBoot.Image.Listing
import UBoot.Env.EepromInit
import UBoot.Flash.Protect
import UBoot.Flash.Spec
import UBoot.Usb.Bulk
import UBoot.Usb.StorRead
import UBoot.Usb.Keys
import UBoot.Pci.ViaDword
import UBoot.Pci.SetupDevice
import UBoot.Pci.Translate
import UBoot.Ram.Mtest
import UBoot.Ram.MtestFaults
import UBoot.Jffs2.Complete
import UBoot.Lib.PowerPC
import UBoot.Bedbug.Opcodes
import UBoot.Bedbug.NextAddress
import UBoot.Lib.Bisect
import UBoot.Lists.Search
import UBoot.Lib.Firsts
import UBoot.Lists.Duplicates
import UBoot.Video.Lcd
import UBoot.Tools.BmpLogo
import UBoot.Tools.BmpFile
import UBoot.Lib.ShiftRegister
import UBoot.Env.CrcTable
import UBoot.Lib.Shifted
import UBoot.Flash.Chip
import UBoot.Flash.WriteBuff
import UBoot.Flash.Erase
import UBoot.Kgdb.Packet
import UBoot.Kgdb.Stub
import UBoot.Kgdb.Session
import UBoot.Kgdb.Registers
