import LinuxDriverKb.CharDev
import LinuxDriverKb.SeqFileTest
import LinuxDriverKb.KernelTimers
import LinuxDriverKb.ProcTest
import LinuxDriverKb.VirtDisk
import LinuxDriverKb.VirtMtd
import LinuxDriverKb.VirtUart
import LinuxDriverKb.VirtUartDrain
import LinuxDriverKb.SetUartOpt
import LinuxDriverKb.Ssd1306Fb
import LinuxDriverKb.Ssd1306FbRefresh
import LinuxDriverKb.Ssd1306FbReinit
import LinuxDriverKb.OledBacklight
import LinuxDriverKb.Tmp75Regmap
import LinuxDriverKb.Tmp75I2c
import LinuxDriverKb.Tmp75Hwmon
import LinuxDriverKb.Tmp75I2cConcurrent
import LinuxDriverKb.RtcDs1340
import LinuxDriverKb.VirtUio
import LinuxDriverKb.KeyDelivery
import LinuxDriverKb.KeyWakeup
import LinuxDriverKb.FasyncProgram
import LinuxDriverKb.ConcurrencyControl
import LinuxDriverKb.ConcurrencyUnlocked
import LinuxDriverKb.SoftWdt
import LinuxDriverKb.SoftWdtDeadline
import LinuxDriverKb.SoftWdtTimeline
import LinuxDriverKb.GChar
import LinuxDriverKb.GCharRead
import LinuxDriverKb.GCharWrite
import LinuxDriverKb.GCharBind
import LinuxDriverKb.FakeIiodev
import LinuxDriverKb.FakeIiodevAttr
import LinuxDriverKb.FakeIiodevEvent
import LinuxDriverKb.FakeIiodevEventFd
import LinuxDriverKb.FakeIiodevBuffer
import LinuxDriverKb.FakeIiodevBufferFd
import LinuxDriverKb.FakeIiodevTimer
import LinuxDriverKb.FakeMouse
import LinuxDriverKb.DebounceTimer
import LinuxDriverKb.GpioInterrupt
import LinuxDriverKb.MiscPublish
import LinuxDriverKb.ResourceLedger
import LinuxDriverKb.ModuleLifecycle
import LinuxDriverKb.KeyRead
import LinuxDriverKb.InputDebounce
import LinuxDriverKb.PositionalAccess
import LinuxDriverKb.DecimalAttr
import LinuxDriverKb.Tmp75Messages
import LinuxDriverKb.Tmp75Program
