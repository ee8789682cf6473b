import KernInt.Lib.Bytes
import KernInt.Lib.Memory
import KernInt.Lib.Loop
import KernInt.Lib.Outcome
import KernInt.Lib.Interleaving
import KernInt.Lib.Tally
import KernInt.Lib.Rearrange
import KernInt.Lib.Patches
import KernInt.Kernel.Headers
import KernInt.Kernel.CodePage
import KernInt.Kernel.CodePageSound
import KernInt.Kernel.CodePageToggle
import KernInt.Kernel.ModuleLoad
import KernInt.Kernel.ModuleLoadInv
import KernInt.Kernel.ModuleLoadReady
import KernInt.Kernel.ModuleLoadOnce
import KernInt.Kernel.ModuleLoadProgress
import KernInt.Kernel.ModuleLoadFail
import KernInt.Elf.ElfFile
import KernInt.Elf.Relocation
import KernInt.Elf.RelocationSymbols
import KernInt.Elf.RelocationOrder
import KernInt.Helpers
import KernInt.Process.Process
import KernInt.Process.CodePage
import KernInt.Process.PagePtrInfo
import KernInt.Process.DataPage
import KernInt.Process.PtrStats
import KernInt.Lib.Circular
import KernInt.Process.TaskList
import KernInt.Process.VMAList
import KernInt.Process.VMAHistory
import KernInt.Lib.Overlay
import KernInt.Lib.Layout
import KernInt.Lib.Copies
import KernInt.Process.CodeOffset
import KernInt.Process.RegisterSyms
import KernInt.Process.SymbolOrder
import KernInt.Process.LoadLibrary
import KernInt.Kernel.Attribution
import KernInt.Kernel.ModuleText
import KernInt.Kernel.Paravirt
import KernInt.Kernel.ParavirtExact
import KernInt.Kernel.PatchFrame
import KernInt.Elf.RelocationTarget
import KernInt.Kernel.Altinstr
import KernInt.Kernel.AltinstrRelocation
import KernInt.Process.WindowScan
import KernInt.Kernel.ModuleData
import KernInt.Process.DataImage
import KernInt.Kernel.SmpLocks
import KernInt.Kernel.UnrolledCall
import KernInt.Kernel.CodePageBounds
import KernInt.Kernel.CodePtrs
import KernInt.Kernel.StackPage
import KernInt.Kernel.CallTargets
import KernInt.Kernel.TargetsFile
import KernInt.Kernel.ReturnAddress
import KernInt.Kernel.AltinstrBounds
import KernInt.Kernel.JumpEntries
import KernInt.Process.Gadget
import KernInt.Process.NullLoader
import KernInt.Process.PtrTarget
import KernInt.Process.ReadBounds
import KernInt.Elf.SectionKinds
import KernInt.Elf.AbsSymbols
import KernInt.Kernel.RoData
import KernInt.Kernel.PageRouting
import KernInt.Elf.GetSymbols
import KernInt.Elf.ModuleSymbols
import KernInt.Elf.SegmentLookup
import KernInt.Kernel.PvTemplate
import KernInt.Lib.NulStrings
import KernInt.Process.Intended
import KernInt.Process.TaskStrings
import KernInt.Kernel.SystemMap
import KernInt.Lib.CString
import KernInt.Kernel.Modinfo
import KernInt.Elf.ElfBytes
import KernInt.Elf.BufferBounds
import KernInt.Elf.FileBytes
import KernInt.Lib.Blocks
import KernInt.Elf.Encoding
import KernInt.Elf.RoundTrip
import KernInt.Kernel.StackAddresses
import KernInt.Kernel.IdtPage
import KernInt.Kernel.ValidationLoop
import KernInt.Kernel.Iteration
import KernInt.Lib.Regex
import KernInt.Lib.DirectoryTree
import KernInt.Process.LibraryLookup
import KernInt.Kernel.ModuleFile
import KernInt.Kernel.KernelImage
import KernInt.Process.LoadRel
import KernInt.Process.Environment
import KernInt.Lib.Census
import KernInt.Process.Summary
import KernInt.Elf.RelocationInPlace
