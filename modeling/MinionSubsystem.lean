import MinionSubsystem.SdReadBlock
import MinionSubsystem.SdWriteBlock
import MinionSubsystem.SdCmdStatus
import MinionSubsystem.SdDataIsolation
import MinionSubsystem.DriverHandshake
import MinionSubsystem.DataBus
import MinionSubsystem.DiskIo
import MinionSubsystem.SdCmdTiming
import MinionSubsystem.SdWriteWait
import MinionSubsystem.SdReadTransaction
import MinionSubsystem.IntStatus
import MinionSubsystem.ByteMemory
import MinionSubsystem.SectorRead
import MinionSubsystem.DiskErrors
import MinionSubsystem.Mailbox
import MinionSubsystem.SdCmdCompletion
import MinionSubsystem.SdCrcBurst
import MinionSubsystem.MailboxPolling
import MinionSubsystem.HexText
import MinionSubsystem.RomImage
import MinionSubsystem.SRecordCheck
import MinionSubsystem.SRecordLoad
import MinionSubsystem.RomGenerator
import MinionSubsystem.RomListing
import MinionSubsystem.ElfLoader
import MinionSubsystem.Edcl
import MinionSubsystem.EdclTransfer
import MinionSubsystem.EdclDelivery
import MinionSubsystem.Uart
import MinionSubsystem.UartLoopback
import MinionSubsystem.SdWriteAcknowledge
import MinionSubsystem.CardClock
import MinionSubsystem.SectorBounds
import MinionSubsystem.UartPort
import MinionSubsystem.UartReceive
import MinionSubsystem.MonitorLine
import MinionSubsystem.EdclSafety
import MinionSubsystem.ElfInMemory
import MinionSubsystem.KeyboardModifiers
import MinionSubsystem.MonitorDump
import MinionSubsystem.TextScreen
import MinionSubsystem.FatWindow
import MinionSubsystem.FatTable
import MinionSubsystem.LinkedCells
import MinionSubsystem.FatChain
import MinionSubsystem.FatFile
import MinionSubsystem.FatRead
import MinionSubsystem.FatWrite
import MinionSubsystem.FatSeek
import MinionSubsystem.ByteFile
import MinionSubsystem.FatFileRun
import MinionSubsystem.FatFiles
import MinionSubsystem.FatSync
import MinionSubsystem.FatMount
