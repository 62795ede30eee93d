import Mathlib.Data.List.Basic
/-
# The font (ui_data.h)

| here | there |
| --- | --- |
| `charCoord`         | `char_coord[256]` (`ui_data.h:98-363`) |
| `kernIndex`, `kern` | `kern_index[257]`, `kern[634]` (`ui_data.h:365-408`) |
| `textWidth`         | `text_width` (`ui.c:199-241`) |

Plain `char` is unsigned on the ARM build, so a glyph's `-1` reads back as 255.
-/

namespace Keynjector.Ui

/-- Cell and metrics of one character. -/
structure CharCoord where
  x : Nat
  y : Nat
  width : Nat
  height : Nat
  xoffset : Nat
  yoffset : Nat
  xadvance : Nat
deriving DecidableEq, Repr

def charCoordTable : List CharCoord :=
  [⟨0, 0, 0, 0, 0, 0, 0⟩, ⟨0, 0, 0, 0, 0, 0, 0⟩, ⟨0, 0, 0, 0, 0, 0, 0⟩, ⟨0, 0, 0, 0, 0, 0, 0⟩,
   ⟨0, 0, 0, 0, 0, 0, 0⟩, ⟨0, 0, 0, 0, 0, 0, 0⟩, ⟨0, 0, 0, 0, 0, 0, 0⟩, ⟨0, 0, 0, 0, 0, 0, 0⟩,
   ⟨0, 0, 0, 0, 0, 0, 0⟩, ⟨0, 0, 0, 0, 0, 0, 0⟩, ⟨0, 0, 0, 0, 0, 0, 0⟩, ⟨0, 0, 0, 0, 0, 0, 0⟩,
   ⟨0, 0, 0, 0, 0, 0, 0⟩, ⟨0, 0, 0, 0, 0, 0, 0⟩, ⟨0, 0, 0, 0, 0, 0, 0⟩, ⟨0, 0, 0, 0, 0, 0, 0⟩,
   ⟨0, 0, 0, 0, 0, 0, 0⟩, ⟨0, 0, 0, 0, 0, 0, 0⟩, ⟨0, 0, 0, 0, 0, 0, 0⟩, ⟨0, 0, 0, 0, 0, 0, 0⟩,
   ⟨0, 0, 0, 0, 0, 0, 0⟩, ⟨0, 0, 0, 0, 0, 0, 0⟩, ⟨0, 0, 0, 0, 0, 0, 0⟩, ⟨0, 0, 0, 0, 0, 0, 0⟩,
   ⟨0, 0, 0, 0, 0, 0, 0⟩, ⟨0, 0, 0, 0, 0, 0, 0⟩, ⟨0, 0, 0, 0, 0, 0, 0⟩, ⟨0, 0, 0, 0, 0, 0, 0⟩,
   ⟨0, 0, 0, 0, 0, 0, 0⟩, ⟨0, 0, 0, 0, 0, 0, 0⟩, ⟨0, 0, 0, 0, 0, 0, 0⟩, ⟨0, 0, 0, 0, 0, 0, 0⟩,
   ⟨37, 16, 2, 1, 0, 19, 3⟩, ⟨48, 55, 2, 12, 1, 5, 4⟩, ⟨73, 63, 4, 4, 1, 5, 6⟩, ⟨152, 29, 10, 12, 0, 5, 11⟩,
   ⟨141, 0, 8, 16, 1, 3, 9⟩, ⟨56, 30, 13, 12, 1, 5, 15⟩, ⟨81, 30, 11, 12, 1, 5, 12⟩, ⟨255, 27, 1, 4, 1, 5, 3⟩,
   ⟨9, 0, 5, 17, 1, 3, 6⟩, ⟨14, 0, 5, 17, 0, 3, 6⟩, ⟨27, 68, 6, 6, 1, 5, 7⟩, ⟨223, 52, 8, 7, 0, 8, 9⟩,
   ⟨253, 51, 2, 5, 1, 14, 4⟩, ⟨94, 63, 6, 2, 1, 12, 7⟩, ⟨254, 12, 2, 3, 1, 14, 4⟩, ⟨96, 16, 8, 13, 0, 5, 8⟩,
   ⟨56, 42, 8, 12, 1, 5, 10⟩, ⟨250, 39, 5, 12, 0, 5, 6⟩, ⟨64, 42, 8, 12, 0, 5, 9⟩, ⟨72, 42, 8, 12, 0, 5, 9⟩,
   ⟨181, 29, 9, 12, 0, 5, 10⟩, ⟨80, 42, 8, 12, 0, 5, 9⟩, ⟨88, 42, 8, 12, 1, 5, 9⟩, ⟨24, 44, 8, 12, 0, 5, 8⟩,
   ⟨96, 41, 8, 12, 1, 5, 10⟩, ⟨104, 41, 8, 12, 1, 5, 9⟩, ⟨221, 52, 2, 8, 1, 9, 4⟩, ⟨62, 54, 2, 10, 1, 9, 4⟩,
   ⟨246, 51, 7, 7, 1, 8, 8⟩, ⟨38, 68, 8, 5, 1, 9, 9⟩, ⟨14, 68, 7, 7, 1, 8, 8⟩, ⟨165, 16, 7, 13, 0, 4, 8⟩,
   ⟨52, 55, 10, 11, 1, 7, 12⟩, ⟨122, 29, 10, 12, 0, 5, 10⟩, ⟨112, 41, 8, 12, 1, 5, 10⟩,
   ⟨120, 41, 8, 12, 1, 5, 9⟩, ⟨217, 28, 9, 12, 1, 5, 11⟩, ⟨128, 41, 8, 12, 1, 5, 9⟩, ⟨0, 56, 7, 12, 1, 5, 9⟩,
   ⟨172, 29, 9, 12, 1, 5, 10⟩, ⟨160, 41, 8, 12, 1, 5, 11⟩, ⟨253, 27, 2, 12, 1, 5, 4⟩, ⟨40, 56, 4, 12, 0, 5, 5⟩,
   ⟨208, 28, 9, 12, 1, 5, 10⟩, ⟨14, 56, 7, 12, 1, 5, 8⟩, ⟨43, 31, 13, 12, 1, 5, 14⟩, ⟨199, 28, 9, 12, 1, 5, 11⟩,
   ⟨235, 27, 9, 12, 1, 5, 11⟩, ⟨168, 41, 8, 12, 1, 5, 9⟩, ⟨0, 17, 9, 15, 1, 5, 11⟩, ⟨176, 41, 8, 12, 1, 5, 10⟩,
   ⟨184, 41, 8, 12, 1, 5, 9⟩, ⟨92, 29, 10, 12, 0, 5, 9⟩, ⟨244, 27, 9, 12, 1, 5, 11⟩,
   ⟨162, 29, 10, 12, 0, 5, 10⟩, ⟨0, 32, 15, 12, 0, 5, 15⟩, ⟨132, 29, 10, 12, 0, 5, 10⟩,
   ⟨142, 29, 10, 12, 0, 5, 9⟩, ⟨192, 41, 8, 12, 0, 5, 9⟩, ⟨31, 0, 4, 17, 1, 3, 5⟩, ⟨136, 16, 8, 13, 0, 5, 8⟩,
   ⟨27, 0, 4, 17, 0, 3, 5⟩, ⟨46, 68, 7, 5, 0, 6, 7⟩, ⟨86, 63, 8, 2, 1, 16, 9⟩, ⟨65, 63, 4, 4, 0, 4, 5⟩,
   ⟨171, 53, 7, 9, 1, 8, 9⟩, ⟨200, 40, 8, 12, 1, 5, 9⟩, ⟨164, 53, 7, 9, 1, 8, 8⟩, ⟨0, 44, 8, 12, 1, 5, 9⟩,
   ⟨157, 53, 7, 9, 1, 8, 9⟩, ⟨158, 16, 7, 13, 0, 4, 6⟩, ⟨190, 29, 9, 12, 0, 8, 9⟩, ⟨229, 39, 7, 12, 1, 5, 9⟩,
   ⟨254, 0, 2, 12, 1, 5, 4⟩, ⟨45, 16, 3, 15, 0, 5, 4⟩, ⟨243, 39, 7, 12, 1, 5, 8⟩, ⟨44, 56, 4, 12, 1, 5, 5⟩,
   ⟨90, 54, 12, 9, 1, 8, 14⟩, ⟨150, 53, 7, 9, 1, 8, 9⟩, ⟨119, 53, 8, 9, 1, 8, 9⟩, ⟨8, 44, 8, 12, 1, 8, 9⟩,
   ⟨16, 44, 8, 12, 1, 8, 9⟩, ⟨192, 53, 5, 9, 1, 8, 6⟩, ⟨143, 53, 7, 9, 1, 8, 8⟩, ⟨250, 15, 6, 12, 0, 5, 6⟩,
   ⟨178, 53, 7, 9, 1, 8, 9⟩, ⟨102, 53, 9, 9, 0, 8, 8⟩, ⟨77, 54, 13, 9, 0, 8, 13⟩, ⟨111, 53, 8, 9, 0, 8, 8⟩,
   ⟨226, 27, 9, 12, 0, 8, 8⟩, ⟨185, 53, 7, 9, 1, 8, 8⟩, ⟨19, 0, 4, 17, 0, 3, 5⟩, ⟨35, 0, 1, 17, 1, 3, 4⟩,
   ⟨23, 0, 4, 17, 0, 3, 5⟩, ⟨77, 63, 6, 3, 1, 10, 8⟩, ⟨0, 0, 0, 0, 0, 0, 0⟩, ⟨0, 0, 0, 0, 0, 0, 0⟩,
   ⟨0, 0, 0, 0, 0, 0, 0⟩, ⟨0, 0, 0, 0, 0, 0, 0⟩, ⟨0, 0, 0, 0, 0, 0, 0⟩, ⟨0, 0, 0, 0, 0, 0, 0⟩,
   ⟨0, 0, 0, 0, 0, 0, 0⟩, ⟨0, 0, 0, 0, 0, 0, 0⟩, ⟨0, 0, 0, 0, 0, 0, 0⟩, ⟨0, 0, 0, 0, 0, 0, 0⟩,
   ⟨0, 0, 0, 0, 0, 0, 0⟩, ⟨0, 0, 0, 0, 0, 0, 0⟩, ⟨0, 0, 0, 0, 0, 0, 0⟩, ⟨0, 0, 0, 0, 0, 0, 0⟩,
   ⟨0, 0, 0, 0, 0, 0, 0⟩, ⟨0, 0, 0, 0, 0, 0, 0⟩, ⟨0, 0, 0, 0, 0, 0, 0⟩, ⟨0, 0, 0, 0, 0, 0, 0⟩,
   ⟨0, 0, 0, 0, 0, 0, 0⟩, ⟨0, 0, 0, 0, 0, 0, 0⟩, ⟨0, 0, 0, 0, 0, 0, 0⟩, ⟨0, 0, 0, 0, 0, 0, 0⟩,
   ⟨0, 0, 0, 0, 0, 0, 0⟩, ⟨0, 0, 0, 0, 0, 0, 0⟩, ⟨0, 0, 0, 0, 0, 0, 0⟩, ⟨0, 0, 0, 0, 0, 0, 0⟩,
   ⟨0, 0, 0, 0, 0, 0, 0⟩, ⟨0, 0, 0, 0, 0, 0, 0⟩, ⟨0, 0, 0, 0, 0, 0, 0⟩, ⟨0, 0, 0, 0, 0, 0, 0⟩,
   ⟨0, 0, 0, 0, 0, 0, 0⟩, ⟨0, 0, 0, 0, 0, 0, 0⟩, ⟨0, 0, 0, 0, 0, 0, 0⟩, ⟨0, 0, 0, 0, 0, 0, 0⟩,
   ⟨50, 55, 2, 12, 1, 8, 4⟩, ⟨208, 40, 7, 12, 1, 5, 8⟩, ⟨32, 44, 8, 12, 1, 5, 9⟩, ⟨197, 53, 9, 8, 0, 7, 10⟩,
   ⟨112, 29, 10, 12, 0, 5, 10⟩, ⟨36, 0, 1, 17, 1, 3, 4⟩, ⟨71, 16, 7, 14, 1, 5, 9⟩, ⟨111, 62, 5, 2, 1, 5, 7⟩,
   ⟨69, 30, 12, 12, 1, 5, 14⟩, ⟨33, 68, 5, 6, 1, 6, 7⟩, ⟨7, 68, 7, 7, 0, 9, 8⟩, ⟨53, 66, 8, 4, 1, 11, 9⟩,
   ⟨100, 63, 6, 2, 1, 12, 7⟩, ⟨231, 51, 8, 7, 1, 5, 9⟩, ⟨106, 62, 5, 2, 1, 5, 6⟩, ⟨61, 66, 4, 4, 1, 5, 6⟩,
   ⟨135, 53, 8, 9, 1, 7, 9⟩, ⟨206, 52, 6, 8, 1, 3, 7⟩, ⟨212, 52, 5, 8, 1, 3, 7⟩, ⟨69, 63, 4, 4, 1, 4, 5⟩,
   ⟨0, 0, 0, 0, 0, 0, 0⟩, ⟨25, 17, 8, 15, 0, 5, 10⟩, ⟨116, 62, 2, 2, 1, 11, 4⟩, ⟨83, 63, 3, 3, 0, 17, 4⟩,
   ⟨217, 52, 4, 8, 0, 3, 5⟩, ⟨21, 68, 6, 6, 1, 6, 7⟩, ⟨239, 51, 7, 7, 1, 9, 8⟩, ⟨15, 32, 14, 12, 0, 5, 14⟩,
   ⟨29, 32, 14, 12, 0, 5, 14⟩, ⟨235, 15, 15, 12, 0, 5, 15⟩, ⟨40, 44, 8, 12, 0, 8, 8⟩, ⟨57, 0, 10, 16, 0, 1, 10⟩,
   ⟨77, 0, 10, 16, 0, 1, 10⟩, ⟨67, 0, 10, 16, 0, 1, 10⟩, ⟨199, 0, 10, 15, 0, 2, 10⟩, ⟨188, 0, 11, 15, 0, 2, 10⟩,
   ⟨47, 0, 10, 16, 0, 1, 10⟩, ⟨220, 15, 15, 12, 0, 5, 15⟩, ⟨17, 17, 8, 15, 1, 5, 9⟩, ⟨165, 0, 8, 16, 1, 1, 9⟩,
   ⟨149, 0, 8, 16, 1, 1, 9⟩, ⟨157, 0, 8, 16, 1, 1, 9⟩, ⟨9, 17, 8, 15, 1, 2, 9⟩, ⟨179, 0, 5, 16, 255, 1, 4⟩,
   ⟨184, 0, 4, 16, 1, 1, 4⟩, ⟨173, 0, 6, 16, 0, 1, 4⟩, ⟨40, 16, 5, 15, 0, 2, 4⟩, ⟨102, 29, 10, 12, 0, 5, 11⟩,
   ⟨245, 0, 9, 15, 1, 2, 11⟩, ⟨87, 0, 9, 16, 1, 1, 11⟩, ⟨96, 0, 9, 16, 1, 1, 11⟩, ⟨105, 0, 9, 16, 1, 1, 11⟩,
   ⟨218, 0, 9, 15, 1, 2, 11⟩, ⟨209, 0, 9, 15, 1, 2, 11⟩, ⟨0, 68, 7, 7, 1, 8, 8⟩, ⟨48, 16, 9, 14, 1, 4, 11⟩,
   ⟨132, 0, 9, 16, 1, 1, 11⟩, ⟨123, 0, 9, 16, 1, 1, 11⟩, ⟨114, 0, 9, 16, 1, 1, 11⟩, ⟨227, 0, 9, 15, 1, 2, 11⟩,
   ⟨37, 0, 10, 16, 0, 1, 9⟩, ⟨48, 43, 8, 12, 1, 5, 10⟩, ⟨86, 16, 10, 13, 0, 4, 11⟩, ⟨151, 16, 7, 13, 1, 4, 9⟩,
   ⟨179, 16, 7, 13, 1, 4, 9⟩, ⟨172, 16, 7, 13, 1, 4, 9⟩, ⟨7, 56, 7, 12, 1, 5, 9⟩, ⟨236, 39, 7, 12, 1, 5, 9⟩,
   ⟨144, 16, 7, 13, 1, 4, 9⟩, ⟨64, 54, 13, 9, 1, 8, 14⟩, ⟨222, 40, 7, 12, 1, 8, 8⟩, ⟨193, 15, 7, 13, 1, 4, 9⟩,
   ⟨207, 15, 7, 13, 1, 4, 9⟩, ⟨200, 15, 7, 13, 1, 4, 9⟩, ⟨215, 40, 7, 12, 1, 5, 9⟩, ⟨82, 16, 4, 14, 255, 3, 4⟩,
   ⟨78, 16, 4, 14, 1, 3, 4⟩, ⟨214, 15, 6, 13, 0, 4, 4⟩, ⟨35, 56, 5, 12, 0, 5, 4⟩, ⟨128, 16, 8, 13, 1, 4, 9⟩,
   ⟨21, 56, 7, 12, 1, 5, 9⟩, ⟨120, 16, 8, 13, 1, 4, 9⟩, ⟨112, 16, 8, 13, 1, 4, 9⟩, ⟨104, 16, 8, 13, 1, 4, 9⟩,
   ⟨136, 41, 8, 12, 1, 5, 9⟩, ⟨144, 41, 8, 12, 1, 5, 9⟩, ⟨127, 53, 8, 9, 1, 7, 9⟩, ⟨152, 41, 8, 12, 1, 6, 9⟩,
   ⟨57, 16, 7, 14, 1, 3, 9⟩, ⟨64, 16, 7, 14, 1, 3, 9⟩, ⟨186, 16, 7, 13, 1, 4, 9⟩, ⟨28, 56, 7, 12, 1, 5, 9⟩,
   ⟨0, 0, 9, 17, 0, 3, 8⟩, ⟨33, 17, 7, 15, 1, 5, 9⟩, ⟨236, 0, 9, 15, 0, 5, 8⟩]

def charCoord (c : UInt8) : CharCoord := charCoordTable.getD c.toNat ⟨0, 0, 0, 0, 0, 0, 0⟩

def kernIndex : List Nat :=
  [0, 0, 0, 0, 0, 0, 0, 0, 0, 0, 0, 0, 0, 0, 0, 0, 0, 0, 0, 0, 0, 0, 0, 0, 0, 0, 0, 0, 0, 0, 0, 0, 0, 0, 0, 6,
   6, 6, 6, 7, 13, 65, 65, 66, 66, 72, 77, 83, 93, 94, 94, 94, 94, 95, 95, 95, 100, 100, 100, 101, 102, 102,
   102, 102, 102, 102, 106, 106, 106, 107, 107, 119, 119, 119, 119, 119, 119, 139, 139, 139, 140, 145, 146, 146,
   146, 205, 205, 210, 212, 212, 262, 262, 262, 275, 275, 275, 275, 275, 279, 283, 284, 284, 288, 291, 292, 296,
   296, 296, 297, 298, 302, 306, 310, 314, 318, 326, 330, 331, 335, 339, 341, 342, 345, 346, 346, 346, 346, 346,
   346, 346, 346, 346, 346, 346, 346, 346, 346, 346, 346, 346, 346, 346, 346, 346, 346, 346, 346, 346, 346, 346,
   346, 346, 346, 346, 346, 346, 346, 346, 346, 346, 346, 346, 347, 347, 347, 347, 347, 347, 347, 347, 347, 347,
   347, 347, 352, 352, 352, 352, 352, 352, 352, 352, 352, 352, 353, 353, 353, 353, 353, 353, 353, 353, 453, 457,
   461, 465, 469, 473, 477, 477, 477, 477, 477, 477, 477, 477, 477, 477, 477, 478, 478, 479, 480, 481, 482, 483,
   483, 484, 484, 484, 484, 484, 533, 535, 535, 539, 543, 547, 551, 555, 559, 563, 564, 568, 572, 576, 580, 580,
   580, 580, 580, 580, 584, 588, 592, 596, 600, 604, 604, 608, 612, 616, 620, 624, 627, 631, 634]

/-- Second character of a pair and its adjustment of the advance. -/
structure KernPair where
  second : Nat
  amount : Int
deriving DecidableEq, Repr

def kern : List KernPair :=
  [⟨44, -1⟩, ⟨45, -1⟩, ⟨46, -1⟩, ⟨47, -1⟩, ⟨173, -1⟩, ⟨198, -1⟩, ⟨84, -1⟩, ⟨44, -1⟩, ⟨45, -1⟩, ⟨46, -1⟩, ⟨47, -1⟩,
   ⟨173, -1⟩, ⟨198, -1⟩, ⟨48, -1⟩, ⟨52, -1⟩, ⟨54, -1⟩, ⟨67, -1⟩, ⟨71, -1⟩, ⟨79, -1⟩, ⟨81, -1⟩, ⟨97, -1⟩, ⟨99, -1⟩,
   ⟨100, -1⟩, ⟨101, -1⟩, ⟨109, -1⟩, ⟨110, -1⟩, ⟨111, -1⟩, ⟨112, -1⟩, ⟨113, -1⟩, ⟨114, -1⟩, ⟨115, -1⟩, ⟨116, -1⟩,
   ⟨117, -1⟩, ⟨118, -1⟩, ⟨119, -1⟩, ⟨199, -1⟩, ⟨210, -1⟩, ⟨211, -1⟩, ⟨212, -1⟩, ⟨213, -1⟩, ⟨214, -1⟩, ⟨216, -1⟩,
   ⟨224, -1⟩, ⟨225, -1⟩, ⟨226, -1⟩, ⟨227, -1⟩, ⟨228, -1⟩, ⟨229, -1⟩, ⟨230, -1⟩, ⟨231, -1⟩, ⟨232, -1⟩, ⟨233, -1⟩,
   ⟨234, -1⟩, ⟨235, -1⟩, ⟨241, -1⟩, ⟨242, -1⟩, ⟨243, -1⟩, ⟨244, -1⟩, ⟨245, -1⟩, ⟨246, -1⟩, ⟨248, -1⟩, ⟨249, -1⟩,
   ⟨250, -1⟩, ⟨251, -1⟩, ⟨252, -1⟩, ⟨198, -1⟩, ⟨34, -1⟩, ⟨39, -1⟩, ⟨84, -1⟩, ⟨86, -1⟩, ⟨89, -1⟩, ⟨221, -1⟩, ⟨34, -1⟩,
   ⟨39, -1⟩, ⟨84, -1⟩, ⟨89, -1⟩, ⟨221, -1⟩, ⟨34, -1⟩, ⟨39, -1⟩, ⟨84, -1⟩, ⟨86, -1⟩, ⟨89, -1⟩, ⟨221, -1⟩, ⟨47, -1⟩,
   ⟨52, -1⟩, ⟨65, -1⟩, ⟨192, -1⟩, ⟨193, -1⟩, ⟨194, -1⟩, ⟨195, -1⟩, ⟨196, -1⟩, ⟨197, -1⟩, ⟨198, -1⟩, ⟨41, -1⟩,
   ⟨41, -1⟩, ⟨44, -1⟩, ⟨46, -1⟩, ⟨47, -1⟩, ⟨198, -1⟩, ⟨215, -1⟩, ⟨84, -1⟩, ⟨84, -1⟩, ⟨84, -1⟩, ⟨89, -1⟩, ⟨92, -1⟩,
   ⟨221, -1⟩, ⟨41, -1⟩, ⟨44, -1⟩, ⟨46, -1⟩, ⟨47, -1⟩, ⟨65, -1⟩, ⟨74, -1⟩, ⟨192, -1⟩, ⟨193, -1⟩, ⟨194, -1⟩, ⟨195, -1⟩,
   ⟨196, -1⟩, ⟨197, -1⟩, ⟨198, -1⟩, ⟨34, -1⟩, ⟨39, -1⟩, ⟨42, -1⟩, ⟨45, -1⟩, ⟨84, -1⟩, ⟨86, -1⟩, ⟨87, -1⟩, ⟨89, -1⟩,
   ⟨92, -1⟩, ⟨118, -1⟩, ⟨119, -1⟩, ⟨121, -1⟩, ⟨170, -1⟩, ⟨173, -1⟩, ⟨174, -1⟩, ⟨183, -2⟩, ⟨186, -1⟩, ⟨221, -1⟩,
   ⟨253, -1⟩, ⟨255, -1⟩, ⟨41, -1⟩, ⟨44, -1⟩, ⟨46, -1⟩, ⟨47, -1⟩, ⟨74, -1⟩, ⟨198, -1⟩, ⟨41, -1⟩, ⟨44, -1⟩, ⟨45, -1⟩,
   ⟨46, -1⟩, ⟨47, -1⟩, ⟨58, -1⟩, ⟨59, -1⟩, ⟨65, -1⟩, ⟨97, -1⟩, ⟨99, -2⟩, ⟨100, -2⟩, ⟨101, -2⟩, ⟨103, -2⟩, ⟨109, -1⟩,
   ⟨110, -1⟩, ⟨111, -2⟩, ⟨112, -1⟩, ⟨113, -2⟩, ⟨114, -1⟩, ⟨115, -1⟩, ⟨117, -1⟩, ⟨118, -1⟩, ⟨119, -1⟩, ⟨120, -1⟩,
   ⟨121, -1⟩, ⟨122, -1⟩, ⟨173, -1⟩, ⟨192, -1⟩, ⟨193, -1⟩, ⟨194, -1⟩, ⟨195, -1⟩, ⟨196, -1⟩, ⟨197, -1⟩, ⟨198, -1⟩,
   ⟨224, -1⟩, ⟨225, -1⟩, ⟨226, -1⟩, ⟨227, -1⟩, ⟨228, -1⟩, ⟨229, -1⟩, ⟨230, -1⟩, ⟨231, -2⟩, ⟨232, -1⟩, ⟨233, -2⟩,
   ⟨234, -2⟩, ⟨235, -2⟩, ⟨236, 1⟩, ⟨241, -1⟩, ⟨242, -1⟩, ⟨243, -2⟩, ⟨244, -2⟩, ⟨245, -2⟩, ⟨246, -2⟩, ⟨248, -2⟩,
   ⟨249, -1⟩, ⟨250, -1⟩, ⟨251, -1⟩, ⟨252, -1⟩, ⟨253, -1⟩, ⟨255, -1⟩, ⟨44, -1⟩, ⟨46, -1⟩, ⟨47, -1⟩, ⟨198, -1⟩,
   ⟨236, 1⟩, ⟨47, -1⟩, ⟨198, -1⟩, ⟨44, -1⟩, ⟨45, -1⟩, ⟨46, -1⟩, ⟨47, -1⟩, ⟨65, -1⟩, ⟨97, -1⟩, ⟨99, -1⟩, ⟨100, -1⟩,
   ⟨101, -1⟩, ⟨103, -1⟩, ⟨109, -1⟩, ⟨110, -1⟩, ⟨111, -1⟩, ⟨112, -1⟩, ⟨113, -1⟩, ⟨114, -1⟩, ⟨115, -1⟩, ⟨117, -1⟩,
   ⟨173, -1⟩, ⟨192, -1⟩, ⟨193, -1⟩, ⟨194, -1⟩, ⟨195, -1⟩, ⟨196, -1⟩, ⟨197, -1⟩, ⟨198, -1⟩, ⟨224, -1⟩, ⟨225, -1⟩,
   ⟨226, -1⟩, ⟨227, -1⟩, ⟨228, -1⟩, ⟨229, -1⟩, ⟨230, -1⟩, ⟨231, -1⟩, ⟨232, -1⟩, ⟨233, -1⟩, ⟨234, -1⟩, ⟨235, -1⟩,
   ⟨236, 1⟩, ⟨241, -1⟩, ⟨242, -1⟩, ⟨243, -1⟩, ⟨244, -1⟩, ⟨245, -1⟩, ⟨246, -1⟩, ⟨248, -1⟩, ⟨249, -1⟩, ⟨250, -1⟩,
   ⟨251, -1⟩, ⟨252, -1⟩, ⟨34, -1⟩, ⟨39, -1⟩, ⟨49, -1⟩, ⟨55, -1⟩, ⟨84, -1⟩, ⟨86, -1⟩, ⟨87, -1⟩, ⟨89, -1⟩, ⟨118, -1⟩,
   ⟨121, -1⟩, ⟨221, -1⟩, ⟨253, -1⟩, ⟨255, -1⟩, ⟨41, -1⟩, ⟨84, -2⟩, ⟨89, -1⟩, ⟨221, -1⟩, ⟨41, -1⟩, ⟨84, -2⟩, ⟨89, -1⟩,
   ⟨221, -1⟩, ⟨84, -2⟩, ⟨41, -1⟩, ⟨84, -1⟩, ⟨89, -1⟩, ⟨221, -1⟩, ⟨47, -1⟩, ⟨198, -1⟩, ⟨236, 1⟩, ⟨84, -1⟩, ⟨41, -1⟩,
   ⟨84, -2⟩, ⟨89, -1⟩, ⟨221, -1⟩, ⟨84, -1⟩, ⟨183, -1⟩, ⟨41, -1⟩, ⟨84, -2⟩, ⟨89, -1⟩, ⟨221, -1⟩, ⟨41, -1⟩, ⟨84, -2⟩,
   ⟨89, -1⟩, ⟨221, -1⟩, ⟨41, -1⟩, ⟨84, -2⟩, ⟨89, -1⟩, ⟨221, -1⟩, ⟨41, -1⟩, ⟨84, -2⟩, ⟨89, -1⟩, ⟨221, -1⟩, ⟨41, -1⟩,
   ⟨84, -1⟩, ⟨89, -1⟩, ⟨221, -1⟩, ⟨41, -1⟩, ⟨44, -1⟩, ⟨45, -1⟩, ⟨46, -1⟩, ⟨47, -1⟩, ⟨84, -1⟩, ⟨173, -1⟩, ⟨198, -1⟩,
   ⟨41, -1⟩, ⟨84, -1⟩, ⟨89, -1⟩, ⟨221, -1⟩, ⟨84, -1⟩, ⟨41, -1⟩, ⟨84, -1⟩, ⟨89, -1⟩, ⟨221, -1⟩, ⟨41, -1⟩, ⟨47, -1⟩,
   ⟨84, -1⟩, ⟨198, -1⟩, ⟨41, -1⟩, ⟨84, -1⟩, ⟨84, -1⟩, ⟨41, -1⟩, ⟨47, -1⟩, ⟨84, -1⟩, ⟨84, -1⟩, ⟨84, -1⟩, ⟨34, -1⟩,
   ⟨39, -1⟩, ⟨84, -1⟩, ⟨89, -1⟩, ⟨221, -1⟩, ⟨108, -1⟩, ⟨66, -1⟩, ⟨67, -1⟩, ⟨68, -1⟩, ⟨69, -1⟩, ⟨70, -1⟩, ⟨71, -1⟩,
   ⟨72, -1⟩, ⟨73, -1⟩, ⟨74, -1⟩, ⟨75, -1⟩, ⟨76, -1⟩, ⟨77, -1⟩, ⟨78, -1⟩, ⟨79, -1⟩, ⟨80, -1⟩, ⟨81, -1⟩, ⟨82, -1⟩,
   ⟨83, -1⟩, ⟨84, -1⟩, ⟨85, -1⟩, ⟨86, -1⟩, ⟨87, -1⟩, ⟨89, -1⟩, ⟨90, -1⟩, ⟨97, -1⟩, ⟨98, -1⟩, ⟨99, -1⟩, ⟨100, -1⟩,
   ⟨101, -1⟩, ⟨102, -1⟩, ⟨104, -1⟩, ⟨105, -1⟩, ⟨107, -1⟩, ⟨108, -1⟩, ⟨109, -1⟩, ⟨110, -1⟩, ⟨111, -1⟩, ⟨112, -1⟩,
   ⟨113, -1⟩, ⟨114, -1⟩, ⟨115, -1⟩, ⟨116, -1⟩, ⟨117, -1⟩, ⟨118, -1⟩, ⟨119, -1⟩, ⟨120, -1⟩, ⟨122, -1⟩, ⟨199, -1⟩,
   ⟨200, -1⟩, ⟨201, -1⟩, ⟨202, -1⟩, ⟨203, -1⟩, ⟨204, -1⟩, ⟨205, -1⟩, ⟨206, -1⟩, ⟨207, -1⟩, ⟨208, -1⟩, ⟨209, -1⟩,
   ⟨210, -1⟩, ⟨211, -1⟩, ⟨212, -1⟩, ⟨213, -1⟩, ⟨214, -1⟩, ⟨216, -1⟩, ⟨217, -1⟩, ⟨218, -1⟩, ⟨219, -1⟩, ⟨220, -1⟩,
   ⟨221, -1⟩, ⟨222, -1⟩, ⟨223, -1⟩, ⟨224, -1⟩, ⟨225, -1⟩, ⟨226, -1⟩, ⟨227, -1⟩, ⟨228, -1⟩, ⟨229, -1⟩, ⟨230, -1⟩,
   ⟨231, -1⟩, ⟨232, -1⟩, ⟨233, -1⟩, ⟨234, -1⟩, ⟨235, -1⟩, ⟨236, -1⟩, ⟨237, -1⟩, ⟨238, -1⟩, ⟨239, -1⟩, ⟨240, -1⟩,
   ⟨241, -1⟩, ⟨242, -1⟩, ⟨243, -1⟩, ⟨244, -1⟩, ⟨245, -1⟩, ⟨246, -1⟩, ⟨248, -1⟩, ⟨249, -1⟩, ⟨250, -1⟩, ⟨251, -1⟩,
   ⟨252, -1⟩, ⟨254, -1⟩, ⟨84, -1⟩, ⟨89, -1⟩, ⟨92, -1⟩, ⟨221, -1⟩, ⟨84, -1⟩, ⟨89, -1⟩, ⟨92, -1⟩, ⟨221, -1⟩, ⟨84, -1⟩,
   ⟨89, -1⟩, ⟨92, -1⟩, ⟨221, -1⟩, ⟨84, -1⟩, ⟨89, -1⟩, ⟨92, -1⟩, ⟨221, -1⟩, ⟨84, -1⟩, ⟨89, -1⟩, ⟨92, -1⟩, ⟨221, -1⟩,
   ⟨84, -1⟩, ⟨89, -1⟩, ⟨92, -1⟩, ⟨221, -1⟩, ⟨41, -1⟩, ⟨41, -1⟩, ⟨41, -1⟩, ⟨41, -1⟩, ⟨41, -1⟩, ⟨41, -1⟩, ⟨41, -1⟩,
   ⟨44, -1⟩, ⟨45, -1⟩, ⟨46, -1⟩, ⟨47, -1⟩, ⟨65, -1⟩, ⟨97, -1⟩, ⟨99, -1⟩, ⟨100, -1⟩, ⟨101, -1⟩, ⟨103, -1⟩, ⟨109, -1⟩,
   ⟨110, -1⟩, ⟨111, -1⟩, ⟨112, -1⟩, ⟨113, -1⟩, ⟨114, -1⟩, ⟨115, -1⟩, ⟨117, -1⟩, ⟨173, -1⟩, ⟨192, -1⟩, ⟨193, -1⟩,
   ⟨194, -1⟩, ⟨195, -1⟩, ⟨196, -1⟩, ⟨197, -1⟩, ⟨198, -1⟩, ⟨224, -1⟩, ⟨225, -1⟩, ⟨226, -1⟩, ⟨227, -1⟩, ⟨228, -1⟩,
   ⟨229, -1⟩, ⟨230, -1⟩, ⟨231, -1⟩, ⟨232, -1⟩, ⟨233, -1⟩, ⟨234, -1⟩, ⟨235, -1⟩, ⟨241, -1⟩, ⟨242, -1⟩, ⟨243, -1⟩,
   ⟨244, -1⟩, ⟨245, -1⟩, ⟨246, -1⟩, ⟨248, -1⟩, ⟨249, -1⟩, ⟨250, -1⟩, ⟨251, -1⟩, ⟨252, -1⟩, ⟨41, -1⟩, ⟨84, -1⟩,
   ⟨41, -1⟩, ⟨84, -2⟩, ⟨89, -1⟩, ⟨221, -1⟩, ⟨41, -1⟩, ⟨84, -2⟩, ⟨89, -1⟩, ⟨221, -1⟩, ⟨41, -1⟩, ⟨84, -2⟩, ⟨89, -1⟩,
   ⟨221, -1⟩, ⟨41, -1⟩, ⟨84, -2⟩, ⟨89, -1⟩, ⟨221, -1⟩, ⟨41, -1⟩, ⟨84, -2⟩, ⟨89, -1⟩, ⟨221, -1⟩, ⟨41, -1⟩, ⟨84, -2⟩,
   ⟨89, -1⟩, ⟨221, -1⟩, ⟨41, -1⟩, ⟨84, -1⟩, ⟨89, -1⟩, ⟨221, -1⟩, ⟨84, -2⟩, ⟨41, -1⟩, ⟨84, -1⟩, ⟨89, -1⟩, ⟨221, -1⟩,
   ⟨41, -1⟩, ⟨84, -1⟩, ⟨89, -1⟩, ⟨221, -1⟩, ⟨41, -1⟩, ⟨84, -1⟩, ⟨89, -1⟩, ⟨221, -1⟩, ⟨41, -1⟩, ⟨84, -1⟩, ⟨89, -1⟩,
   ⟨221, -1⟩, ⟨41, -1⟩, ⟨84, -2⟩, ⟨89, -1⟩, ⟨221, -1⟩, ⟨41, -1⟩, ⟨84, -2⟩, ⟨89, -1⟩, ⟨221, -1⟩, ⟨41, -1⟩, ⟨84, -2⟩,
   ⟨89, -1⟩, ⟨221, -1⟩, ⟨41, -1⟩, ⟨84, -2⟩, ⟨89, -1⟩, ⟨221, -1⟩, ⟨41, -1⟩, ⟨84, -2⟩, ⟨89, -1⟩, ⟨221, -1⟩, ⟨41, -1⟩,
   ⟨84, -2⟩, ⟨89, -1⟩, ⟨221, -1⟩, ⟨41, -1⟩, ⟨84, -2⟩, ⟨89, -1⟩, ⟨221, -1⟩, ⟨41, -1⟩, ⟨84, -1⟩, ⟨89, -1⟩, ⟨221, -1⟩,
   ⟨41, -1⟩, ⟨84, -1⟩, ⟨89, -1⟩, ⟨221, -1⟩, ⟨41, -1⟩, ⟨84, -1⟩, ⟨89, -1⟩, ⟨221, -1⟩, ⟨41, -1⟩, ⟨84, -1⟩, ⟨89, -1⟩,
   ⟨221, -1⟩, ⟨41, -1⟩, ⟨47, -1⟩, ⟨84, -1⟩, ⟨41, -1⟩, ⟨84, -2⟩, ⟨89, -1⟩, ⟨221, -1⟩, ⟨41, -1⟩, ⟨47, -1⟩, ⟨84, -1⟩]

/-- `FONT_HEIGHT` (`ui.c:196`). -/
def fontHeight : Int := 20

/-- The glyph advance with the kerning loop's adjustment for the next character
(`ui.c:217-231`). -/
def kernedAdvance (c : UInt8) (next : Option UInt8) : Int :=
  match next with
  | none => (charCoord c).xadvance
  | some c2 =>
    let j := kernIndex.getD c.toNat 0
    let k := kernIndex.getD (c.toNat + 1) 0
    let matching := ((kern.drop j).take (k - j)).filter fun p => p.second == c2.toNat
    matching.foldl (fun advance p => advance + p.amount) (charCoord c).xadvance

/-- The loop of `text_width` over the first `s_len` characters. No `xoffset` is
negative, so only the advances count. -/
def runWidth : List UInt8 → Int
  | [] => 0
  | [c] => kernedAdvance c none
  | c :: c2 :: s => kernedAdvance c (some c2) + runWidth (c2 :: s)

/-- `text_width`: `FULL_LENGTH` is 0, and a length that wrapped below zero measures
nothing. `sLen` is the length after the cast to `int`. -/
def textWidth (s : List UInt8) (sLen : Int) : Int :=
  if sLen = 0 then runWidth s else runWidth (s.take sLen.toNat)

/-- The table has an entry for every character. -/
theorem charCoord_getElem? (c : UInt8) : charCoordTable[c.toNat]? = some (charCoord c) := by
  have htable : charCoordTable.length = 256 := by decide +kernel
  have hc : c.toNat < charCoordTable.length := htable.symm ▸ c.toNat_lt
  rw [charCoord, List.getD_eq_getElem?_getD, List.getElem?_eq_getElem hc, Option.getD_some]

theorem charCoord_mem (c : UInt8) : charCoord c ∈ charCoordTable := List.mem_of_getElem? (charCoord_getElem? c)

/-- **Every glyph fits the font's line**: its cell never reaches below the 20 rows. -/
theorem yoffset_add_height_le (c : UInt8) : (charCoord c).yoffset + (charCoord c).height ≤ 20 := by
  have key : ∀ g ∈ charCoordTable, g.yoffset + g.height ≤ 20 := by decide +kernel
  exact key _ (charCoord_mem c)

end Keynjector.Ui
