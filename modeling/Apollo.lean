import Apollo.Nand.Hamming
import Apollo.Ftl.Planes
import Apollo.Ftl.Ecc
import Apollo.Ftl.Contents
import Apollo.Ftl.PowerCut
import Apollo.Ftl.Search
import Apollo.Ftl.Layout
import Apollo.Ftl.Moves
import Apollo.Ftl.Compare
import Apollo.Ftl.Progress
import Apollo.Ftl.Failures
import Apollo.Malloc.Free
import Apollo.Malloc.Realloc
import Apollo.Usart.Receiver
import Apollo.Remote.Keys
import Apollo.Exfuns.FileCopy
import Apollo.Norflash.Write
import Apollo.Fatfs.Diskio
import Apollo.Usb.Truly
import Apollo.Usb.Status
import Apollo.Usb.Fops
import Apollo.Text.Update
import Apollo.Text.Heap
import Apollo.Text.String
import Apollo.Usmart.RoundTrip
import Apollo.Usmart.Numbers
import Apollo.Usmart.Prototype
import Apollo.Lwip.Dhcp
import Apollo.Wav.Play
import Apollo.Fatfs.CodePage
import Apollo.Lcd.FrameBuffer
import Apollo.Lcd.Fill
import Apollo.Lcd.Number
import Apollo.Lcd.String
import Apollo.Exfuns.FileType
import Apollo.Exfuns.FolderSize
import Apollo.Exfuns.Release
import Apollo.Delay.Systick
import Apollo.Exfuns.SrcDname
import Apollo.Audio.Playlist
import Apollo.Iic.Pcf8574
