import IconPainter.Disk.Tree
import IconPainter.Libraries
import IconPainter.Proofs.Delivery.Cleanup
import IconPainter.Proofs.Delivery.Exposure
import IconPainter.Proofs.Delivery.Series
import IconPainter.Proofs.Delivery.Settling
import IconPainter.Proofs.Job.Destination
import IconPainter.Proofs.Job.Icon
import IconPainter.Proofs.Job.Spelling
import IconPainter.Proofs.Job.Telling
import IconPainter.Proofs.Program.Repetition
import IconPainter.Proofs.Raster.Clipping
import IconPainter.Proofs.Raster.Cropping
import IconPainter.Proofs.Raster.Overflow
import IconPainter.Proofs.Raster.Shape
import IconPainter.Proofs.Raster.Spacing
