import DotMatrix.Journal
import DotMatrix.Proofs.Branching
import DotMatrix.Proofs.Checked.Machine
import DotMatrix.Proofs.Coincidence
import DotMatrix.Proofs.DecimalArithmetic
import DotMatrix.Proofs.FlagFootprint
import DotMatrix.Proofs.Independence
import DotMatrix.Proofs.OperandForms
import DotMatrix.Proofs.PowerCycle
import DotMatrix.Proofs.Screen
import DotMatrix.Proofs.Shifting
import DotMatrix.Proofs.SpriteTransfer
import DotMatrix.Proofs.Stack
import DotMatrix.Proofs.Truncation
import DotMatrix.Proofs.WindowLines
