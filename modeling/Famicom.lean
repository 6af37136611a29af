import Famicom.Console
import Famicom.Ppu.PatternTable
import Famicom.Text.Decimal
import Famicom.Proofs.Cpu.BusUse
import Famicom.Proofs.Cpu.StepTime
import Famicom.Proofs.Cpu.InstructionTraffic
import Famicom.Proofs.Ppu.DotFrame
import Famicom.Proofs.Ppu.Position
import Famicom.Proofs.Console.Events
import Famicom.Proofs.Console.Clock
import Famicom.Proofs.Ppu.NmiLine
import Famicom.Proofs.Console.NmiEdge
import Famicom.Proofs.Console.LateProgram
import Famicom.Proofs.Ppu.Lines
import Famicom.Proofs.Ppu.PixelStream
import Famicom.Proofs.Ppu.Background
import Famicom.Proofs.Ppu.PictureAddress
import Famicom.Proofs.Ppu.ScrollFields
import Famicom.Proofs.Ppu.ScrollPath
import Famicom.Proofs.Ppu.SpriteSearch
import Famicom.Proofs.Ppu.SpriteUnits
import Famicom.Proofs.Ppu.Foreground
import Famicom.Proofs.Safety.Checked
import Famicom.Proofs.Safety.Cartridge
import Famicom.Proofs.Safety.Picture
import Famicom.Proofs.Safety.Dots
import Famicom.Proofs.Safety.Processor
import Famicom.Proofs.Safety.Bus
import Famicom.Proofs.Safety.Console
import Famicom.Proofs.Ppu.Blanking
import Famicom.Proofs.History
import Famicom.Proofs.OamDma
import Famicom.Proofs.Ppu.FramePoints
import Famicom.Proofs.Ppu.Drawing
import Famicom.Proofs.Ppu.Passes
import Famicom.Proofs.Ppu.FramePath
import Famicom.Proofs.Ppu.SpriteZero
import Famicom.Proofs.Ppu.Leftovers
import Famicom.Proofs.Console.FreshStart
import Famicom.Proofs.Cpu.Interruptions
import Famicom.Proofs.Ppu.Announcing
import Famicom.Proofs.Ppu.StatusFlags
import Famicom.Proofs.Console.PageCopy
import Famicom.Proofs.Cartridge.Format
import Famicom.Proofs.Cartridge.Banks
import Famicom.Proofs.Console.MemoryMap
import Famicom.Proofs.Ppu.DataPort
import Famicom.Proofs.Ppu.FrameLength
import Famicom.Proofs.Console.HostView
import Famicom.Proofs.Console.BusHistory
import Famicom.Proofs.Cpu.PushedStatus
import Famicom.Proofs.Console.PowerCycle
import Famicom.Proofs.Cpu.Stack
import Famicom.Proofs.Cpu.Subroutines
import Famicom.Proofs.Cpu.HandlerReturn
import Famicom.Proofs.Ppu.HiddenLayers
import Famicom.Proofs.Console.FrameRun
import Famicom.Proofs.Cpu.Arithmetic
import Famicom.Proofs.Cpu.CombinedOperations
import Famicom.Proofs.Cpu.Effects
import Famicom.Proofs.Cpu.ListingLine
import Famicom.Proofs.Cpu.ListingColumns
import Famicom.Proofs.Ppu.ScrollUses
import Famicom.Proofs.Ppu.ScrollTorus
import Famicom.Proofs.Ppu.SpriteEvaluation
import Famicom.Proofs.Ppu.LineFetches
import Famicom.Proofs.History
