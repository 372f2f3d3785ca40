import DotMatrix.Machine
import DotMatrix.Snapshot.Codec

/-!
# Layout of a snapshot

The fields of a stored machine in their order: CPU, bus, video unit, counters.  Numbers are
little-endian, memories follow their size.  The decoded tiles are not stored, since video memory
determines them: a snapshot that was read has blank ones.

* `Snapshot` — what is stored: a machine without its settings.
* `Layout.snapshot` — the format of the whole, put together from the formats of its parts.
-/

set_option autoImplicit false

namespace DotMatrix

/-- A machine without its settings. -/
structure Snapshot where
  cpu : Cpu
  bus : Bus
  cycles : UInt64
  frames : UInt64

namespace Layout

open Codec

/-- Registers of the CPU. -/
def cpu : Codec Cpu :=
  (u8.pair <| u8.pair <| u8.pair <| u8.pair <| u8.pair <| u8.pair <| u8.pair <| u8.pair <|
    u16.pair <| u16.pair <| bool.pair bool).map
    (fun (a, f, b, c, d, e, h, l, pc, sp, ime, autoAdvance) =>
      { a, f, b, c, d, e, h, l, pc, sp, ime, autoAdvance })
    (fun x => (x.a, x.f, x.b, x.c, x.d, x.e, x.h, x.l, x.pc, x.sp, x.ime, x.autoAdvance))

/-- Registers of the video unit. -/
def registers : Codec Registers :=
  (u8.pair <| u8.pair <| u8.pair <| u8.pair <| u8.pair <| u8.pair <| u8.pair <| u8.pair <|
    u8.pair <| u8.pair <| u8.pair u8).map
    (fun (lcdc, stat, scy, scx, ly, lyc, dma, bgp, obp0, obp1, wy, wx) =>
      { lcdc, stat, scy, scx, ly, lyc, dma, bgp, obp0, obp1, wy, wx })
    (fun x => (x.lcdc, x.stat, x.scy, x.scx, x.ly, x.lyc, x.dma, x.bgp, x.obp0, x.obp1, x.wy, x.wx))

/-- The video unit.  Its tiles are not stored, and none are read. -/
def video : Codec Video :=
  ((segment 0x2000).pair <| (segment 0xA0).pair <| (segment 92160).pair <| registers.pair <|
    u32.pair u8).map
    (fun (vram, oam, frame, regs, clock, windowLine) =>
      { vram, oam, tiles := TileCache.blank, frame, regs, clock, windowLine })
    (fun x => (x.vram, x.oam, x.frame, x.regs, x.clock, x.windowLine))

/-- The bus.  External RAM may have any size. -/
def bus : Codec Bus :=
  (bool.pair <| (segment 0x100).pair <| (segment 0x8000).pair <| blob.pair <|
    (segment 0x2000).pair <| (segment 0x80).pair video).map
    (fun (bootMapped, boot, rom, eram, wram, zram, video) =>
      { bootMapped, boot, rom, eram := eram.toArray, wram, zram, video })
    (fun x => (x.bootMapped, x.boot, x.rom, x.eram.toList, x.wram, x.zram, x.video))

/-- The whole. -/
def snapshot : Codec Snapshot :=
  (cpu.pair <| bus.pair <| u64.pair u64).map
    (fun (cpu, bus, cycles, frames) => { cpu, bus, cycles, frames })
    (fun x => (x.cpu, x.bus, x.cycles, x.frames))

end Layout

end DotMatrix
