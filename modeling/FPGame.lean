import FPGame.Foundation.Machine
import FPGame.Vram.VramSyncWriter
import FPGame.Vram.SyncCopies
import FPGame.Dma.ImageCopy
import FPGame.Ioss.SnesController
import FPGame.Apu.SampleStream
import FPGame.Apu.I2sComm
import FPGame.Ppu.FrameHandoff
import FPGame.Ppu.DmaRequests
import FPGame.Ppu.RowComposition
import FPGame.Ppu.TileEngine
import FPGame.Ppu.SpriteLayer
import FPGame.Ppu.SpriteRestart
import FPGame.Ppu.SpriteChain
import FPGame.Ppu.IndirectCopies
import FPGame.Video.ScanOut
import FPGame.Video.RowPreparation
import FPGame.Kernel.AudioStream
import FPGame.Kernel.AudioHandover
import FPGame.Kernel.AudioMute
import FPGame.Kernel.PpuLock
import FPGame.Kernel.PpuOwner
import FPGame.Kernel.PpuProbe
import FPGame.Kernel.PpuErrors
import FPGame.Library.SpriteRoundTrip
import FPGame.Library.Containment
import FPGame.Library.TileWrites
import FPGame.Library.PatternWrites
import FPGame.Library.PaletteColors
import FPGame.Library.Scroll
import FPGame.Library.Leaks
import FPGame.Library.LoadPalette
import FPGame.Library.LoadPattern
import FPGame.Library.LoadTilemap
import FPGame.Audio.Playing
import FPGame.Console.Release
import FPGame.Hdmi.ConfigFrames
import FPGame.Ioss.ControllerReading
